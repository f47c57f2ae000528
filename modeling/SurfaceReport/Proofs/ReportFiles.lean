import SurfaceReport.Proofs.Places
import SurfaceReport.Proofs.RunEndings
import SurfaceReport.Proofs.StageSteps

/-!
# The files of a run

A run touches its log and, if it gets that far, its report; what it
leaves of all files is settled by the moment when it comes to write the
report (`Job.attempt?`). Before that moment and behind it only the log
grows, and the log is never the report, whatever directories they lie in
and whatever the assemblies are called (`RunConfig.report_ne_log`).

So the reports of any number of runs can be followed place by place
(`runs_leave_reports`). No run disturbs the report of another one but by
writing its own over it.
-/

namespace SurfaceReport

/-! ## Runs -/

/-- What one run is started with, but for the world that it finds. -/
structure Job where
  config : RunConfig
  reader : Reader
  programDirectory : Except IoCause Path
  listing : Receiver := {}

namespace Job

variable (job : Job) (world : World)

def ending : Except Fault Outcome × Trail Stage :=
  (Run.run job.programDirectory job.reader job.config).runFrom { world, listing := job.listing }

def worldAfter : World := (job.ending world).2.sink.world

/-- The run gets as far as to have a log. -/
def Starts : Prop :=
  world.files.isFile job.config.assemblyPath = true ∧ job.config.namespaces.isDiscovery = false
    ∧ ∃ found, Run.openLog job.programDirectory job.config world = .ok found

/-- What the reader answers when the log has its first line, if there is a log. -/
def answer? : Option (Except Fault Source) :=
  match Run.openLog job.programDirectory job.config world with
  | .error _ => none
  | .ok (_, place, later) =>
    let files := (RunLog.record (some place) (Run.readingEvent job.config) later).2.files
    some (job.reader files job.config.assemblyPath).1

/-- The report that a run has built when it comes to write it, and the files at that moment. A run
that ends before has none. -/
def attempt? : Option (Node × FileSystem) :=
  if world.files.isFile job.config.assemblyPath && !job.config.namespaces.isDiscovery then
    match Run.openLog job.programDirectory job.config world with
    | .error _ => none
    | .ok (log, place, later) =>
      match Recording.after (Run.prepareReport (Stage.sink (some place)) job.reader job.config)
          ⟨{ world := later, listing := job.listing }, ["run log opened at " ++ log.shown]⟩ with
      | (.error _, _) => none
      | (.ok root, trail) => some (root, trail.sink.world.files)
  else none

/-- The run does not fail to write its report, if it comes to that. -/
def writes : Bool :=
  match job.attempt? world with
  | none => true
  | some (root, files) => (files.write job.config.outputPath (Xml.bytes root)).1.isOk

end Job

namespace Report

open Recording

/-- What is built is made of what the source offers, whoever keeps the events. -/
theorem offers_of_build {σ : Type} {sink : EventSink σ} {rule : ExportRule} {source : Source}
    {trail : Trail σ} {root : Node} (h : (after (build sink rule source) trail).1 = .ok root) :
    ∃ name modules, source.Offers name modules ∧ root = tree rule name modules := by
  rw [build_eq] at h
  obtain ⟨name, afterName, hname, h⟩ := exists_of_after_bind h
  obtain ⟨modules, afterModules, hmodules, h⟩ := exists_of_after_bind h
  obtain ⟨-, afterScript, -, h⟩ := exists_of_after_bind h
  exact ⟨name, modules, ⟨congrArg Prod.fst hname, congrArg Prod.fst hmodules⟩,
    (Except.ok.inj h).symm⟩

end Report

namespace Run

open Recording FileSystem

variable {programDirectory : Except IoCause Path} {c : RunConfig} {world later : World} {log : Path}
  {place : Location}

theorem openLog_eq_ok (h : openLog programDirectory c world = .ok (log, place, later)) :
    c.logPath programDirectory world.now.1 = .ok log
      ∧ ∃ files, world.files.create log = .ok (place, files)
        ∧ later = { world.now.2 with files } := by
  unfold openLog at h
  cases hlog : c.logPath programDirectory world.now.1 with
  | error fault =>
      rw [hlog] at h
      cases h
  | ok path =>
      rw [hlog] at h
      dsimp only at h
      unfold RunLog.create at h
      have hfiles : world.now.2.files = world.files := rfl
      rw [hfiles] at h
      cases hcreate : world.files.create path with
      | error cause =>
          rw [hcreate] at h
          cases h
      | ok created =>
          rw [hcreate] at h
          cases h
          exact ⟨rfl, _, hcreate, rfl⟩

theorem files_record (file : Option Location) (e : Event) (w : World) :
    (RunLog.record file e w).2.files
      = match file with
        | none => w.files
        | some place =>
          (w.files.append place (e.line (w.clock w.readings) ++ "\n").toUTF8).2 := by
  unfold RunLog.record
  cases file with
  | none => rfl
  | some place =>
      dsimp only [World.now, World.print]
      rcases w.files.append place _ with ⟨_ | _, files⟩ <;> rfl

/-- A log on the console alone touches no file. -/
theorem admits_sameFiles :
    Stage.Admits none fun s later : Stage => later.world.files = s.world.files where
  refl _ := rfl
  trans _ _ _ h hlater := hlater.trans h
  opened _ _ := rfl
  recorded e s := by rw [world_sink_record, files_record]

/-- A log in a file touches that file alone. -/
theorem admits_changesAt (place : Location) :
    Stage.Admits (some place) fun s later : Stage =>
      ChangesAt (· = place) s.world.files later.world.files where
  refl _ := .refl _ _
  trans _ _ _ h hlater := h.trans hlater
  opened _ _ := .refl _ _
  recorded e s := by
    rw [world_sink_record, files_record]
    exact changesAt_append _ _ _

theorem files_discovery (reader : Reader) (c : RunConfig) (trail : Trail Stage) :
    (after (reportFailure (Stage.sink none) do
      return Outcome.namespaces (← listNamespaces reader c.assemblyPath))
      trail).2.sink.world.files = trail.sink.world.files :=
  keeps_discovery admits_sameFiles reader c (fun _ _ => rfl) trail

/-- The files behind a run that has a log, from the moment on when it has
prepared its report or failed to. -/
theorem files_report (place : Location) (reader : Reader) (c : RunConfig) (log : Path)
    (trail : Trail Stage) :
    ChangesAt (· = place)
      (match after (prepareReport (Stage.sink (some place)) reader c) trail with
        | (.error _, prepared) => prepared.sink.world.files
        | (.ok root, prepared) =>
          (prepared.sink.world.files.write c.outputPath (Xml.bytes root)).2)
      (after (reportFailure (Stage.sink (some place))
        (exportReport (Stage.sink (some place)) reader c log)) trail).2.sink.world.files := by
  have hadmits := admits_changesAt place
  have hfailure := keeps_behind_reportFailure hadmits
    (exportReport (Stage.sink (some place)) reader c log) trail
  rw [exportReport_eq] at hfailure ⊢
  rcases hprepare : after (prepareReport (Stage.sink (some place)) reader c) trail with
    ⟨fault | root, prepared⟩
  · rwa [after_bind_of_error hprepare] at hfailure
  · rw [after_bind_of_ok hprepare] at hfailure
    exact (keeps_behind_writeDocument hadmits c log root prepared).trans hfailure

end Run

namespace Job

open Recording FileSystem

variable (job : Job) (world : World)

/-! ## What one run changes -/

/-- The run's log is to be at the place. -/
def LogsAt (place : Location) : Prop :=
  ∃ log, job.config.logPath job.programDirectory world.now.1 = .ok log
    ∧ world.files.place? log = some place

/-- The ways in which a run can deal with files: it has no log, it ends
before it comes to write its report, or it comes to write it. -/
inductive Course : Prop where
  | idle (hstarts : ¬job.Starts world) (hattempt : job.attempt? world = none)
      (hfiles : (job.worldAfter world).files = world.files)
  | givenUp {place : Location} (hlog : job.LogsAt world place)
      (hstarts : job.Starts world) (hattempt : job.attempt? world = none)
      (hfiles : ChangesAt (· = place) world.files (job.worldAfter world).files)
  | attempted {place : Location} {root : Node} {files : FileSystem}
      (hlog : job.LogsAt world place) (hstarts : job.Starts world)
      (hattempt : job.attempt? world = some (root, files))
      (hbefore : ChangesAt (· = place) world.files files)
      (hbehind : ChangesAt (· = place) (files.write job.config.outputPath (Xml.bytes root)).2
        (job.worldAfter world).files)

theorem worldAfter_eq : job.worldAfter world = ((Run.run job.programDirectory job.reader
    job.config).runFrom { world, listing := job.listing }).2.sink.world := rfl

/-- A run that has a log is cut where its report is built, or is not. -/
theorem course_of_openLog {log : Path} {place : Location} {later : World}
    (hfile : world.files.isFile job.config.assemblyPath = true)
    (hmode : job.config.namespaces.isDiscovery = false)
    (hopen : Run.openLog job.programDirectory job.config world = .ok (log, place, later)) :
    job.Course world := by
  have hstarts : job.Starts world := ⟨hfile, hmode, _, hopen⟩
  obtain ⟨hpath, files, hcreate, hlater⟩ := Run.openLog_eq_ok hopen
  obtain ⟨hplace, -, -, hcreated⟩ := create_eq_ok hcreate
  have hfiles : later.files = files := by rw [hlater]
  rw [← hfiles] at hcreated
  have hlog : job.LogsAt world place := ⟨log, hpath, hplace⟩
  have hend := job.worldAfter_eq world
  rw [Run.run_of_report hfile hmode, hopen] at hend
  have hprepare := Run.keeps_prepareReport (Run.admits_changesAt place) job.reader job.config
    ⟨{ world := later, listing := job.listing }, ["run log opened at " ++ log.shown]⟩
  have hreport := Run.files_report place job.reader job.config log
    ⟨{ world := later, listing := job.listing }, ["run log opened at " ++ log.shown]⟩
  dsimp only at hend
  rw [← hend] at hreport
  rcases hprepared : after (Run.prepareReport (Stage.sink (some place)) job.reader job.config)
    ⟨{ world := later, listing := job.listing }, ["run log opened at " ++ log.shown]⟩ with
    ⟨fault | root, prepared⟩ <;> rw [hprepared] at hprepare hreport
  · exact .givenUp hlog hstarts (by simp [attempt?, hopen, hprepared])
      ((hcreated.trans hprepare).trans hreport)
  · exact .attempted hlog hstarts (by simp [attempt?, hfile, hmode, hopen, hprepared])
      (hcreated.trans hprepare) hreport

theorem course : job.Course world := by
  cases hfile : world.files.isFile job.config.assemblyPath with
  | false =>
      refine .idle (fun hstarts => ?_) (by simp [attempt?, hfile]) ?_
      · rw [hstarts.1] at hfile
        cases hfile
      · rw [worldAfter_eq, Run.run_of_missing hfile]
  | true =>
  cases hmode : job.config.namespaces.isDiscovery with
  | true =>
      refine .idle (fun hstarts => ?_) (by simp [attempt?, hmode]) ?_
      · rw [hstarts.2.1] at hmode
        cases hmode
      · rw [worldAfter_eq, Run.run_of_discovery hfile hmode, Run.files_discovery]
  | false =>
  cases hopen : Run.openLog job.programDirectory job.config world with
  | error fault =>
      refine .idle (fun hstarts => ?_) (by simp [attempt?, hopen]) ?_
      · obtain ⟨found, hfound⟩ := hstarts.2.2
        rw [hfound] at hopen
        cases hopen
      · rw [worldAfter_eq, Run.run_of_report hfile hmode, hopen]
        rfl
  | ok found =>
      obtain ⟨log, place, later⟩ := found
      exact job.course_of_openLog world hfile hmode hopen

/-- What can be relied on about the files that a run leaves. -/
structure Frame : Prop where
  /-- A run whose assembly is missing, that lists namespaces, or that has no log. -/
  idle : ¬job.Starts world → (job.worldAfter world).files = world.files
  /-- No other file changes than the log and the report. -/
  elsewhere : ∀ place, ¬job.LogsAt world place →
    world.files.place? job.config.outputPath ≠ some place →
    (job.worldAfter world).files.find? place = world.files.find? place
  /-- Every path leads where it led. -/
  ways : ∀ p, (job.worldAfter world).files.place? p = world.files.place? p
  /-- A report that lies there already stays as it is unless a new one is built. -/
  report : ∀ place, world.files.place? job.config.outputPath = some place →
    job.attempt? world = none →
    (job.worldAfter world).files.find? place = world.files.find? place
  /-- What is built is the report of what the reader answered. -/
  built : ∀ root files, job.attempt? world = some (root, files) →
    ∃ source, job.answer? world = some (.ok source)
      ∧ ((Report.build .memory (.within job.config.namespaces.constraint?) source).runFrom []).1
        = .ok root
  /-- Once written, the report is there, whatever was there before. -/
  written : ∀ root files, job.attempt? world = some (root, files) →
    (files.write job.config.outputPath (Xml.bytes root)).1 = .ok () →
    ∃ place, world.files.place? job.config.outputPath = some place
      ∧ (job.worldAfter world).files.find? place
        = some (rewritten (Xml.bytes root) (world.files.find? place))

variable {job world}

theorem ne_of_logsAt {c : RunConfig} {fs : FileSystem} {report place : Location}
    (hlog : job.LogsAt world place) (hreport : fs.place? c.outputPath = some report) :
    report ≠ place := by
  obtain ⟨log, hpath, hplace⟩ := hlog
  exact RunConfig.report_ne_log hpath hplace hreport

/-- Where a report lies that a run has written: it is there, whatever stood there. -/
theorem find?_of_written {place : Location} {root : Node} {files : FileSystem}
    (hlog : job.LogsAt world place) (hbefore : ChangesAt (· = place) world.files files)
    (hbehind : ChangesAt (· = place) (files.write job.config.outputPath (Xml.bytes root)).2
      (job.worldAfter world).files)
    (hwrite : (files.write job.config.outputPath (Xml.bytes root)).1 = .ok ()) :
    ∃ report, world.files.place? job.config.outputPath = some report
      ∧ (job.worldAfter world).files.find? report
        = some (rewritten (Xml.bytes root) (world.files.find? report)) := by
  obtain ⟨report, hreport, hfind⟩ := find?_write hwrite
  rw [hbefore.place?_eq] at hreport
  have hne := ne_of_logsAt hlog hreport
  refine ⟨report, hreport, ?_⟩
  rw [hbehind.find?_eq report hne, hfind, hbefore.find?_eq report hne]

theorem built_of_attempt {root : Node} {files : FileSystem}
    (h : job.attempt? world = some (root, files)) :
    ∃ source, job.answer? world = some (.ok source)
      ∧ ((Report.build .memory (.within job.config.namespaces.constraint?) source).runFrom []).1
        = .ok root := by
  unfold attempt? at h
  unfold answer?
  split at h
  case isFalse => cases h
  case isTrue =>
    cases hopen : Run.openLog job.programDirectory job.config world with
    | error fault =>
        rw [hopen] at h
        cases h
    | ok found =>
        obtain ⟨log, place, later⟩ := found
        rw [hopen] at h
        dsimp only at h
        split at h
        case h_1 => cases h
        case h_2 built prepared hprepared =>
          cases h
          obtain ⟨_, announced, hrecord, hprepared⟩ :=
            exists_of_after_bind (congrArg Prod.fst hprepared)
          obtain ⟨source, opened, hsource, hbuilt⟩ := exists_of_after_bind hprepared
          have hworld : announced.sink.world
              = (RunLog.record (some place) (Run.readingEvent job.config) later).2 := by
            rw [← congrArg (fun answer => answer.2.sink.world) hrecord, after_record]
            dsimp only
            rw [Run.world_sink_record]
          rw [Run.after_openAssembly, hworld] at hsource
          obtain ⟨name, modules, hoffers, rfl⟩ := Report.offers_of_build hbuilt
          refine ⟨source, congrArg some (congrArg Prod.fst hsource), ?_⟩
          rw [Report.build_accepted hoffers EventSink.memory_acceptsAll]

theorem frame (job : Job) (world : World) : Frame job world := by
  cases job.course world with
  | idle hstarts hattempt hfiles =>
      constructor
      case idle => exact fun _ => hfiles
      case elsewhere => exact fun place _ _ => by rw [hfiles]
      case ways => exact fun p => by rw [hfiles]
      case report => exact fun place _ _ => by rw [hfiles]
      case built => exact fun root files h => built_of_attempt h
      case written => simp [hattempt]
  | @givenUp place hlog hstarts hattempt hfiles =>
      constructor
      case idle => exact fun h => absurd hstarts h
      case elsewhere =>
        rintro other hother -
        refine hfiles.find?_eq other ?_
        rintro rfl
        exact hother hlog
      case ways => exact hfiles.place?_eq
      case report =>
        exact fun report hreport _ => hfiles.find?_eq report (ne_of_logsAt hlog hreport)
      case built => exact fun root files h => built_of_attempt h
      case written => simp [hattempt]
  | @attempted place root files hlog hstarts hattempt hbefore hbehind =>
      have hwrite := changesAt_write files job.config.outputPath (Xml.bytes root)
      constructor
      case idle => exact fun h => absurd hstarts h
      case elsewhere =>
        intro other hother hreport
        have hne : other ≠ place := by
          rintro rfl
          exact hother hlog
        rw [← hbefore.place?_eq] at hreport
        rw [hbehind.find?_eq other hne, hwrite.find?_eq other hreport,
          hbefore.find?_eq other hne]
      case ways =>
        intro p
        rw [hbehind.place?_eq, hwrite.place?_eq, hbefore.place?_eq]
      case report => simp [hattempt]
      case built => exact fun root files h => built_of_attempt h
      case written =>
        intro root' files' hattempt' hok
        rw [hattempt] at hattempt'
        cases hattempt'
        exact find?_of_written hlog hbefore hbehind hok

end Job

/-! ## Any number of runs -/

/-- The world behind some runs, one after the other. -/
def worldAfterAll : List Job → World → World
  | [], world => world
  | job :: rest, world => worldAfterAll rest (job.worldAfter world)

/-- No run fails to write its report once it comes to that. -/
def everyReportWritten : List Job → World → Bool
  | [], _ => true
  | job :: rest, world => job.writes world && everyReportWritten rest (job.worldAfter world)

/-- The report that a run comes to write at a place. -/
def Job.reportAt? (job : Job) (world : World) (place : Location) : Option Node :=
  match job.attempt? world with
  | none => none
  | some (root, _) =>
    if world.files.place? job.config.outputPath = some place then some root else none

/-- The report that the last of some runs to write one there has written at a place. -/
def lastReport? (place : Location) : List Job → World → Option Node
  | [], _ => none
  | job :: rest, world =>
    (lastReport? place rest (job.worldAfter world)).or (job.reportAt? world place)

open FileSystem

/-- What a run leaves where reports lie. -/
theorem Job.find?_worldAfter {job : Job} {world : World} {c : RunConfig} {place : Location}
    (hplace : world.files.place? c.outputPath = some place) (hwrites : job.writes world = true) :
    (job.worldAfter world).files.find? place
      = match job.reportAt? world place with
        | none => world.files.find? place
        | some root => some (rewritten (Xml.bytes root) (world.files.find? place)) := by
  have hframe := job.frame world
  have hlog : ¬job.LogsAt world place := fun hlog => Job.ne_of_logsAt hlog hplace rfl
  unfold writes at hwrites
  unfold reportAt?
  cases hattempt : job.attempt? world with
  | none =>
      by_cases hreport : world.files.place? job.config.outputPath = some place
      · exact hframe.report place hreport hattempt
      · exact hframe.elsewhere place hlog hreport
  | some attempted =>
      obtain ⟨root, files⟩ := attempted
      rw [hattempt] at hwrites
      have hok := eq_ok_of_isOk hwrites
      obtain ⟨report, hreport, hfind⟩ := hframe.written root files hattempt hok
      dsimp only
      by_cases hhere : world.files.place? job.config.outputPath = some place
      · obtain rfl := Option.some.inj (hreport.symm.trans hhere)
        rw [if_pos hhere]
        exact hfind
      · rw [if_neg hhere]
        exact hframe.elsewhere place hlog hhere

theorem place?_worldAfterAll (jobs : List Job) (world : World) (p : Path) :
    (worldAfterAll jobs world).files.place? p = world.files.place? p := by
  induction jobs generalizing world with
  | nil => rfl
  | cons job rest ih => rw [worldAfterAll, ih, (job.frame world).ways]

theorem find?_worldAfterAll (jobs : List Job) {world : World} {c : RunConfig} {place : Location}
    (hplace : world.files.place? c.outputPath = some place)
    (hwritten : everyReportWritten jobs world = true) :
    (worldAfterAll jobs world).files.find? place
      = match lastReport? place jobs world with
        | none => world.files.find? place
        | some root => some (rewritten (Xml.bytes root) (world.files.find? place)) := by
  induction jobs generalizing world with
  | nil => rfl
  | cons job rest ih =>
      rw [everyReportWritten, Bool.and_eq_true] at hwritten
      have hnext : (job.worldAfter world).files.place? c.outputPath = some place := by
        rw [(job.frame world).ways, hplace]
      rw [worldAfterAll, ih hnext hwritten.2, Job.find?_worldAfter hplace hwritten.1, lastReport?]
      cases lastReport? place rest (job.worldAfter world) with
      | some root =>
          rw [Option.some_or]
          cases job.reportAt? world place with
          | none => rfl
          | some earlier => exact congrArg some (rewritten_rewritten _ _ _)
      | none => rfl

/-- **Reports stay.** Every run of a sequence leaves the files within its
frame. And as long as no run fails to write the report that it has built,
there lies at every place of a report what the last run that came to
write there has written, or what was there at first. A device at such a
place holds nothing and stays one. -/
theorem runs_leave_reports (jobs : List Job) (world : World) :
    (∀ before job behind, jobs = before ++ job :: behind →
        job.Frame (worldAfterAll before world))
      ∧ (everyReportWritten jobs world = true → ∀ (c : RunConfig) (place : Location),
        world.files.place? c.outputPath = some place →
        (worldAfterAll jobs world).files.place? c.outputPath = some place
          ∧ (worldAfterAll jobs world).files.find? place
            = match lastReport? place jobs world with
              | none => world.files.find? place
              | some root => some (rewritten (Xml.bytes root) (world.files.find? place))) := by
  refine ⟨fun before job _ _ => job.frame _, fun hwritten c place hplace => ⟨?_, ?_⟩⟩
  · rw [place?_worldAfterAll, hplace]
  · exact find?_worldAfterAll jobs hplace hwritten

/-- A run that writes a report, a run that fails and a run that lists namespaces. -/
def gameJobs : List Job :=
  let source := Source.ofModules "Game" [⟨"Game.dll", [{ ns := "A", name := "Player" }]⟩]
  [⟨Run.gameConfig, Run.readerOf source, .error .noEntry, {}⟩,
    ⟨Run.gameConfig, Run.brokenReader, .error .noEntry, {}⟩,
    ⟨{ Run.gameConfig with namespaces := .discover }, Run.readerOf source, .error .noEntry, {}⟩]

theorem runs_leave_report_of_game :
    let place : Location := [(Path.ofText "Game_Export.xml").bytes]
    everyReportWritten gameJobs Run.gameWorld = true
      ∧ Run.gameWorld.files.place? Run.gameConfig.outputPath = some place
      ∧ (worldAfterAll gameJobs Run.gameWorld).files.find? place = some (.file
          ("<?xml version=\x221.0\x22 encoding=\x22utf-8\x22?>\n<Assembly Name=\x22Game\x22>\n  " ++
            "<Type Namespace=\x22A\x22 FullName=\x22A.Player\x22/>\n</Assembly>\n").toUTF8) := by
  intro place
  have hwritten : everyReportWritten gameJobs Run.gameWorld = true := by decide +kernel
  have hplace : Run.gameWorld.files.place? Run.gameConfig.outputPath = some place := by
    decide +kernel
  have hlast : (lastReport? place gameJobs Run.gameWorld).map Xml.text
      = some (
          "<?xml version=\x221.0\x22 encoding=\x22utf-8\x22?>\n<Assembly Name=\x22Game\x22>\n  " ++
          "<Type Namespace=\x22A\x22 FullName=\x22A.Player\x22/>\n</Assembly>\n") := by
    decide +kernel
  have hfree : Run.gameWorld.files.find? place = none := by decide +kernel
  obtain ⟨-, hreports⟩ := runs_leave_reports gameJobs Run.gameWorld
  obtain ⟨-, hfind⟩ := hreports hwritten Run.gameConfig place hplace
  obtain ⟨root, hroot, htext⟩ := Option.map_eq_some_iff.mp hlast
  refine ⟨hwritten, hplace, ?_⟩
  rw [hfind, hroot, hfree, ← htext]
  rfl

end SurfaceReport
