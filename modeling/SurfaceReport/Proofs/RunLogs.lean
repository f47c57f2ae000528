import SurfaceReport.Proofs.LogLines
import SurfaceReport.Proofs.ReportFiles

/-!
# The log of a run

Through whatever a run does, the console and the log's file gain the
lines of the events that are recorded and nothing else (`admits_logs`).
For the file this needs that the report is not written over the log.

So the file of a log is nothing but the lines of its events, and can be
read back exactly if no message holds a line feed (`log_readable_iff`).
Names in an assembly can hold one: `line_feed_splits_event` is a run that
goes well, with a log that tells of a failure.
-/

namespace SurfaceReport

namespace Stage

/-- From the one stage to the other the log took these events and refused none. -/
structure Logs (file : Option Location) (s later : Stage) (events : List Event) : Prop where
  recorded_eq : later.recorded = s.recorded ++ events
  gains : s.world.Gains file later.world events

/-- If the log refuses nothing from the one stage to the other, it takes some events. -/
def LogsUnlessRefused (file : Option Location) (s later : Stage) : Prop :=
  ∃ refused, later.refused = s.refused ++ refused
    ∧ (refused = [] → ∃ events, s.Logs file later events)

variable {file : Option Location} {s middle later : Stage}

theorem LogsUnlessRefused.of_gains_nil (hrefused : later.refused = s.refused)
    (hrecorded : later.recorded = s.recorded) (hgains : s.world.Gains file later.world []) :
    s.LogsUnlessRefused file later :=
  ⟨[], by rw [hrefused, List.append_nil],
    fun _ => ⟨[], by rw [hrecorded, List.append_nil], hgains⟩⟩

theorem LogsUnlessRefused.trans (h : s.LogsUnlessRefused file middle)
    (hlater : middle.LogsUnlessRefused file later) : s.LogsUnlessRefused file later := by
  obtain ⟨refused, hrefused, hlogs⟩ := h
  obtain ⟨refused', hrefused', hlogs'⟩ := hlater
  refine ⟨refused ++ refused', by rw [hrefused', hrefused, List.append_assoc], fun hnone => ?_⟩
  rw [List.append_eq_nil_iff] at hnone
  obtain ⟨events, hevents, hgains⟩ := hlogs hnone.1
  obtain ⟨events', hevents', hgains'⟩ := hlogs' hnone.2
  exact ⟨events ++ events', by rw [hevents', hevents, List.append_assoc], hgains.trans hgains'⟩

theorem LogsUnlessRefused.record (e : Event) (s : Stage) :
    s.LogsUnlessRefused file ((sink file).record e s).2 := by
  rw [record_eq]
  cases hanswer : (RunLog.record file e s.world).1 with
  | ok => exact ⟨[], (List.append_nil _).symm, fun _ => ⟨[e], rfl, RunLog.gains_record hanswer⟩⟩
  | error fault => exact ⟨[e], rfl, nofun⟩

theorem admits_logs (file : Option Location) : Stage.Admits file (LogsUnlessRefused file) where
  refl s := .of_gains_nil rfl rfl (.refl file s.world)
  trans _ _ _ h hlater := h.trans hlater
  opened _ s := .of_gains_nil rfl rfl (.refl file s.world)
  recorded := .record

/-- From a stage on where nothing is recorded yet, what is gained is all that is recorded. -/
theorem LogsUnlessRefused.gains_of_accepted (h : s.LogsUnlessRefused file later)
    (hs : s.refused = []) (hnothing : s.recorded = []) (hlater : later.refused = []) :
    s.world.Gains file later.world later.recorded := by
  obtain ⟨refused, hrefused, hlogs⟩ := h
  rw [hlater, hs, List.nil_append] at hrefused
  obtain ⟨events, hrecorded, hgains⟩ := hlogs hrefused.symm
  rw [hnothing, List.nil_append] at hrecorded
  rwa [hrecorded]

end Stage

namespace Run

open Recording FileSystem

variable {programDirectory : Except IoCause Path} {reader : Reader} {c : RunConfig}
  {world later : World} {listing : Receiver} {log : Path} {place : Location}

/-! ## Runs that write a report -/

/-- The report is not written over the log. -/
theorem logs_writeDocument (hlog : c.logPath programDirectory world.now.1 = .ok log)
    (hplace : world.files.place? log = some place) (root : Node) :
    Keeps (Stage.LogsUnlessRefused (some place)) (writeDocument root c.outputPath) := by
  intro trail
  unfold writeDocument
  rw [after_onStage]
  refine .of_gains_nil rfl rfl ⟨rfl, rfl, (String.append_empty).symm, ?_⟩
  rintro _ content ⟨⟩ hfind
  have hne : trail.sink.world.files.place? c.outputPath ≠ some place := fun hreport =>
    RunConfig.report_ne_log hlog hplace hreport rfl
  dsimp only
  rw [(changesAt_write _ _ _).find?_eq place hne, hfind]
  exact congrArg (some ∘ Entry.file) (ByteArray.append_empty).symm

theorem logs_report (reader : Reader) (hlog : c.logPath programDirectory world.now.1 = .ok log)
    (hplace : world.files.place? log = some place) :
    Keeps (Stage.LogsUnlessRefused (some place)) (reportFailure (Stage.sink (some place))
      (exportReport (Stage.sink (some place)) reader c log)) :=
  keeps_reportFailure (Stage.admits_logs _) (keeps_exportReport (Stage.admits_logs _) reader c log
    (logs_writeDocument hlog hplace))

/-- What a run that writes a report leaves on the console and in its log,
from the moment on when it has one. -/
theorem gains_report (hfile : world.files.isFile c.assemblyPath = true)
    (hmode : c.namespaces.isDiscovery = false)
    (hopen : openLog programDirectory c world = .ok (log, place, later)) (haccepted :
      ((run programDirectory reader c).runFrom { world, listing }).2.sink.refused = []) :
    later.Gains (some place)
      ((run programDirectory reader c).runFrom { world, listing }).2.sink.world
      ((run programDirectory reader c).runFrom { world, listing }).2.sink.recorded := by
  obtain ⟨hlog, files, hcreate, -⟩ := openLog_eq_ok hopen
  obtain ⟨hplace, -⟩ := create_eq_ok hcreate
  rw [run_of_report hfile hmode, hopen] at haccepted ⊢
  dsimp only at haccepted ⊢
  have hlogs := logs_report reader hlog hplace
    ⟨{ world := later, listing }, ["run log opened at " ++ log.shown]⟩
  exact hlogs.gains_of_accepted rfl rfl haccepted

/-- The file of a run's log is the lines of what the run has recorded. -/
theorem isLog_of_report (hfile : world.files.isFile c.assemblyPath = true)
    (hmode : c.namespaces.isDiscovery = false)
    (hopen : openLog programDirectory c world = .ok (log, place, later))
    (hplain : ∀ device, world.files.find? place ≠ some (.device device)) (haccepted :
      ((run programDirectory reader c).runFrom { world, listing }).2.sink.refused = []) :
    ∃ file, ((run programDirectory reader c).runFrom
          { world, listing }).2.sink.world.files.find? place = some (.file file)
      ∧ RunLog.IsLog world.clock (world.readings + 1)
        ((run programDirectory reader c).runFrom { world, listing }).2.sink.recorded file := by
  have hgains := gains_report hfile hmode hopen haccepted
  obtain ⟨-, files, hcreate, rfl⟩ := openLog_eq_ok hopen
  obtain ⟨-, -, hfind, -⟩ := create_eq_ok hcreate
  have hempty : files.find? place = some (.file .empty) := by
    rw [hfind]
    rcases hold : world.files.find? place with _ | _ | _ | device
    case some.device => exact absurd hold (hplain device)
    all_goals rfl
  have hcontent := hgains.file_eq place .empty rfl hempty
  rw [ByteArray.empty_append] at hcontent
  exact ⟨_, hcontent, RunLog.isLog_ended _ _ _⟩

end Run

namespace RunLog

/-! ## Reading logs -/

/-- **A log can be read exactly if no message breaks its line.** -/
theorem log_readable_iff {w : World} {place : Location} {events : List Event}
    (hfile : w.files.find? place = some (.file .empty))
    (haccepted : (sink (some place)).Accepts events w) :
    ∃ file, ((sink (some place)).feed events w).files.find? place = some (.file file)
      ∧ IsLog w.clock w.readings events file
      ∧ ∀ i : Nat, (lines w.clock w.readings events)[i]? = events[i]?.map fun e =>
          .ofList ((w.clock (w.readings + i)).lineText ++ ' ' ::
            (e.level.tag.toList ++ ' ' :: e.message.toList)) := by
  have hgains := (gains_feed haccepted).file_eq place .empty rfl hfile
  rw [ByteArray.empty_append] at hgains
  refine ⟨_, hgains, isLog_ended w.clock w.readings events, fun i => ?_⟩
  rw [getElem?_lines]
  refine congrArg (events[i]?.map ·) (funext fun e => ?_)
  rw [← toList_line, String.ofList_toList]

theorem log_of_two_events :
    let place : Location := [(Path.ofText "Game.dll").bytes]
    let events : List Event := [.info "Reading assembly: Game.dll", ⟨.success, "[ERROR] or not"⟩]
    Run.gameWorld.files.find? place = some (.file .empty)
      ∧ (sink (some place)).Accepts events Run.gameWorld
      ∧ ∃ file, ((sink (some place)).feed events Run.gameWorld).files.find? place
          = some (.file file)
        ∧ eventsOfFile? file = some events := by
  intro place events
  have hfile : Run.gameWorld.files.find? place = some (.file .empty) := by decide +kernel
  have haccepted : (sink (some place)).Accepts events Run.gameWorld :=
    ⟨eq_ok_of_isOk (by decide +kernel), eq_ok_of_isOk (by decide +kernel), trivial⟩
  have hone : OneLine events := by
    unfold OneLine
    decide
  obtain ⟨file, hfind, hlog, -⟩ := log_readable_iff hfile haccepted
  exact ⟨hfile, haccepted, file, hfind, hlog.events_iff.mpr hone⟩

/-- A module that is named like a line of a log and the one behind it. -/
def forgingModule : Module where
  name := "Game.dll\n1970-01-01 00:00:00 [ERROR] Invalid assembly format."

/-- What a run with the module records. -/
def forgingEvents : List Event :=
  [.info "Reading assembly: Game.dll", .info ("Processing module: " ++ forgingModule.name),
    ⟨.success, "Export complete. XML saved to 'Game_Export.xml'"⟩,
    .info "Log file saved as 'logs/Game_19700101_000000.log'"]

/-- What its log tells of. -/
def forgedEvents : List Event :=
  [.info "Reading assembly: Game.dll", .info "Processing module: Game.dll",
    ⟨.error, "Invalid assembly format."⟩,
    ⟨.success, "Export complete. XML saved to 'Game_Export.xml'"⟩,
    .info "Log file saved as 'logs/Game_19700101_000000.log'"]

/-- A run that goes well, and in its log a failure that never was. -/
theorem line_feed_splits_event :
    let ending := (Run.run (.error .noEntry)
      (Run.readerOf (.ofModules "Game" [forgingModule])) Run.gameConfig).runFrom
        { world := Run.gameWorld }
    ending.2.sink.refused = [] ∧ ending.2.sink.recorded = forgingEvents
      ∧ ∃ file, ending.2.sink.world.files.find?
            [(Path.ofText "logs").bytes, (Path.ofText "Game_19700101_000000.log").bytes]
          = some (.file file)
        ∧ (linesOfFile? file).map List.length = some (ending.2.sink.recorded.length + 1)
        ∧ eventsOfFile? file = some forgedEvents := by
  intro ending
  have hrefused : ending.2.sink.refused = [] := by decide +kernel
  have hrecorded : ending.2.sink.recorded = forgingEvents := by decide +kernel
  have hfile : Run.gameWorld.files.isFile Run.gameConfig.assemblyPath = true := by decide +kernel
  have hplace : ((Run.openLog (.error .noEntry) Run.gameConfig Run.gameWorld).toOption.map
      fun found => found.2.1)
      = some [(Path.ofText "logs").bytes, (Path.ofText "Game_19700101_000000.log").bytes] := by
    decide +kernel
  have hplain : Run.gameWorld.files.find?
      [(Path.ofText "logs").bytes, (Path.ofText "Game_19700101_000000.log").bytes] = none := by
    decide +kernel
  -- The line of the module's event and the lines of two events are the same text.
  have hsame : ended (lines Run.gameWorld.clock 1 forgingEvents)
      = ended (lines Run.gameWorld.clock 1 forgedEvents) := by decide +kernel
  have hone : OneLine forgedEvents := by
    unfold OneLine
    decide +kernel
  cases hopen : Run.openLog (.error .noEntry) Run.gameConfig Run.gameWorld with
  | error fault =>
      rw [hopen] at hplace
      cases hplace
  | ok found =>
      obtain ⟨log, place, later⟩ := found
      rw [hopen] at hplace
      obtain rfl := Option.some.inj hplace
      obtain ⟨file, hfind, hlog⟩ :=
        Run.isLog_of_report hfile rfl hopen (fun device => by rw [hplain]; nofun) hrefused
      have hforging : IsLog Run.gameWorld.clock 1 forgingEvents file := hrecorded ▸ hlog
      have hforged : IsLog Run.gameWorld.clock 1 forgedEvents file := by
        rw [hforging.content_eq, hsame]
        exact isLog_ended _ _ _
      refine ⟨hrefused, hrecorded, file, hfind, ?_, hforged.events_iff.mpr hone⟩
      rw [hrecorded]
      exact hforged.length_iff.mpr hone

end RunLog

end SurfaceReport
