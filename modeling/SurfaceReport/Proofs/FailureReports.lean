import SurfaceReport.Program
import SurfaceReport.Proofs.RunLogs

/-!
# Who tells of a failure

A run that fails is told of on the console once: by its log or by the
program, and neither asks what the other has done. What shares out the
work is whether the fault is fatal. That comes out right because a run
hands on no fatal fault that it has not recorded, and no other one once
it has a log (`Run.Course`).

The console is looked at as a list of what was put on it (`printed`) and
not as text, in which a name of an assembly could look like anything.
-/

namespace SurfaceReport

/-! ## What a run puts on the console -/

namespace Run

variable {programDirectory : Except IoCause Path} {reader : Reader} {c : RunConfig}
  {world : World} {listing : Receiver}

/-- How often the clock was read before the first event of a run. -/
def readingsBefore (c : RunConfig) (world : World) : Nat :=
  if c.namespaces.isDiscovery then world.readings else world.readings + 1

theorem gains_discovery (hfile : world.files.isFile c.assemblyPath = true)
    (hmode : c.namespaces.isDiscovery = true) (haccepted :
      ((run programDirectory reader c).runFrom { world, listing }).2.sink.refused = []) :
    world.Gains none ((run programDirectory reader c).runFrom { world, listing }).2.sink.world
      ((run programDirectory reader c).runFrom { world, listing }).2.sink.recorded := by
  rw [run_of_discovery hfile hmode] at haccepted ⊢
  have hlogs := keeps_discovery (Stage.admits_logs none) reader c
    (fun s _ => .of_gains_nil rfl rfl (.refl none s.world)) ⟨{ world, listing }, []⟩
  exact hlogs.gains_of_accepted rfl rfl haccepted

/-- A run puts the lines of its events on the console, and nothing else. -/
theorem console_run (haccepted :
      ((run programDirectory reader c).runFrom { world, listing }).2.sink.refused = []) :
    ((run programDirectory reader c).runFrom { world, listing }).2.sink.world.console
      = world.console ++ RunLog.ended (RunLog.lines world.clock (readingsBefore c world)
          ((run programDirectory reader c).runFrom { world, listing }).2.sink.recorded) := by
  unfold readingsBefore
  cases hfile : world.files.isFile c.assemblyPath with
  | false =>
      rw [run_of_missing hfile]
      exact String.append_empty.symm
  | true =>
  cases hmode : c.namespaces.isDiscovery with
  | true => exact (gains_discovery hfile hmode haccepted).console_eq
  | false =>
  cases hopen : openLog programDirectory c world with
  | error fault =>
      rw [run_of_report hfile hmode, hopen]
      exact String.append_empty.symm
  | ok found =>
      obtain ⟨log, place, later⟩ := found
      have hgains := gains_report hfile hmode hopen haccepted
      obtain ⟨-, files, -, rfl⟩ := openLog_eq_ok hopen
      exact hgains.console_eq

/-! ## The errors among its events -/

/-- What a run records of the fault that it ends with. -/
def fatalEvents {α : Type} : Except Fault α → List Event
  | .ok _ => []
  | .error fault => if fault.isFatal then [⟨.error, fault.message⟩] else []

theorem fatalEvents_eq {α : Type} {result : Except Fault α}
    (hfatal : ∀ fault, result = .error fault → fault.isFatal = true) :
    fatalEvents result = failureEvents result := by
  cases result with
  | ok a => rfl
  | error fault => exact if_pos (hfatal fault rfl)

theorem filter_error_failureEvents {α : Type} (result : Except Fault α) :
    (failureEvents result).filter (·.level = .error) = failureEvents result := by
  cases result <;> rfl

theorem filter_error_reportEvents {log : Path} {place : Location} {result : Except Fault Outcome} :
    (reportEvents reader c log place world result).filter (·.level = .error)
      = failureEvents result := by
  have hbuilding (rule : ExportRule) (answer : Except Fault Source) :
      (buildingEvents rule answer).filter (·.level = .error) = [] := by
    rw [List.filter_eq_nil_iff]
    intro e he
    rw [level_of_mem_buildingEvents e he]
    decide
  have hsuccess : (successEvents c log result).filter (·.level = .error) = [] := by
    cases result <;> rfl
  unfold reportEvents
  dsimp only
  rw [List.filter_append, List.filter_append, List.filter_cons_of_neg (by exact nofun), hbuilding,
    hsuccess, filter_error_failureEvents]
  rfl

/-- What a run records as an error is the fatal fault that it ends with. -/
theorem Course.filter_error {result : Except Fault Outcome} {opened : List Path}
    {events : List Event} (h : Course programDirectory reader c world result opened events) :
    events.filter (·.level = .error) = fatalEvents result := by
  cases h with
  | missing hfile => rfl
  | logless hfile hmode hlog => rfl
  | listed hfile hmode hfatal => rw [fatalEvents_eq hfatal, filter_error_failureEvents]
  | reported hfile hmode hlog hfatal houtcome =>
      rw [fatalEvents_eq hfatal, filter_error_reportEvents]

end Run

namespace Program

/-! ## What is on the console -/

/-- Who tells of a failure. -/
inductive Teller where
  | runLog
  | program
  deriving DecidableEq, Repr

/-- What is put on the console at once. -/
inductive Print where
  | logged (time : Moment) (e : Event)
  | listing (received : ByteArray)
  | reported (fault : Fault)

namespace Print

def text : Print → String
  | logged time e => e.line time ++ "\n"
  | listing received => Utf8.shown received.toList
  | reported fault => faultLine fault

/-- The failure that is told of, and by whom. -/
def report? : Print → Option (Teller × String)
  | logged _ e => if e.level = .error then some (.runLog, e.message) else none
  | listing _ => none
  | reported fault => some (.program, fault.message)

end Print

/-- Events that are put on the console one after the other, from a reading of the clock on. -/
def loggedFrom (clock : Nat → Moment) : Nat → List Event → List Print
  | _, [] => []
  | reading, e :: rest => .logged (clock reading) e :: loggedFrom clock (reading + 1) rest

/-- What the program puts there itself for what a run results in. -/
def ownReport : Except Fault Outcome → List Print
  | .ok _ => []
  | .error fault => if fault.isFatal then [] else [.reported fault]

def printed (c : RunConfig) (world : World) (ending : Except Fault Outcome × Trail Stage) :
    List Print :=
  loggedFrom world.clock (Run.readingsBefore c world) ending.2.sink.recorded
    ++ .listing ending.2.sink.listing.received :: ownReport ending.1

/-- How a failure is to be told of. -/
def reports : Except Fault Outcome → List (Teller × String)
  | .ok _ => []
  | .error fault => [(if fault.isFatal then .runLog else .program, fault.message)]

variable {clock : Nat → Moment} {reading : Nat} {events : List Event}

theorem join_loggedFrom : String.join ((loggedFrom clock reading events).map Print.text)
    = RunLog.ended (RunLog.lines clock reading events) := by
  unfold RunLog.ended
  congr 1
  induction events generalizing reading with
  | nil => rfl
  | cons e rest ih =>
      rw [loggedFrom, List.map_cons, ih, RunLog.lines, List.map_cons]
      rfl

theorem report?_loggedFrom : (loggedFrom clock reading events).filterMap Print.report?
    = (events.filter (·.level = .error)).map fun e => (.runLog, e.message) := by
  induction events generalizing reading with
  | nil => rfl
  | cons e rest ih =>
      rw [loggedFrom]
      by_cases he : e.level = .error
      · have hreport : (Print.logged (clock reading) e).report? = some (.runLog, e.message) :=
          if_pos he
        rw [List.filterMap_cons_some hreport, ih, List.filter_cons_of_pos (by simpa using he),
          List.map_cons]
      · have hnone : (Print.logged (clock reading) e).report? = none := if_neg he
        rw [List.filterMap_cons_none hnone, ih, List.filter_cons_of_neg (by simpa using he)]

/-! ## Failures -/

variable {programDirectory : Except IoCause Path} {reader : Reader} {verbose : Bool}
  {c : RunConfig} {world : World}

theorem inspect_exitCode : (inspect programDirectory reader verbose c world).exitCode
    = match ((Run.run programDirectory reader c).runFrom { world }).1 with
      | .ok _ => 0
      | .error _ => 1 := by
  unfold inspect
  rcases (Run.run programDirectory reader c).runFrom { world } with ⟨_ | _, trail⟩ <;> rfl

theorem inspect_console : (inspect programDirectory reader verbose c world).world.console
    = let ending := (Run.run programDirectory reader c).runFrom { world }
      ending.2.sink.world.console ++ (Utf8.shown ending.2.sink.listing.received.toList
        ++ String.join ((ownReport ending.1).map Print.text)) := by
  unfold inspect
  rcases (Run.run programDirectory reader c).runFrom { world } with ⟨fault | outcome, trail⟩
  · dsimp only [ownReport, worldAfter, World.print]
    by_cases hfatal : fault.isFatal = true
    · rw [if_pos hfatal, if_pos hfatal, List.map_nil, String.join_nil, String.append_empty]
    · rw [if_neg hfatal, if_neg hfatal, List.map_cons, List.map_nil, String.join_cons,
        String.join_nil, String.append_empty, ← String.append_assoc]
      rfl
  · dsimp only [ownReport, worldAfter, World.print]
    rw [List.map_nil, String.join_nil, String.append_empty]

/-- The console behind a run: its lines, the listing and what the program says itself. -/
theorem inspect_console_of_accepted (haccepted :
      ((Run.run programDirectory reader c).runFrom { world }).2.sink.refused = []) :
    (inspect programDirectory reader verbose c world).world.console
      = world.console ++ String.join ((printed c world
          ((Run.run programDirectory reader c).runFrom { world })).map Print.text) := by
  have hconsole := Run.console_run haccepted
  unfold printed
  rw [List.map_append, List.map_cons, String.join_append, String.join_cons, join_loggedFrom,
    ← String.append_assoc, ← hconsole, inspect_console]
  rfl

theorem report?_printed (haccepted :
      ((Run.run programDirectory reader c).runFrom { world }).2.sink.refused = []) :
    (printed c world ((Run.run programDirectory reader c).runFrom { world })).filterMap
        Print.report?
      = reports ((Run.run programDirectory reader c).runFrom { world }).1 := by
  have herrors := (Run.run_course haccepted).filter_error
  unfold printed
  rw [List.filterMap_append, report?_loggedFrom, herrors]
  rcases (Run.run programDirectory reader c).runFrom { world } with ⟨fault | outcome, trail⟩
  · dsimp only [Run.fatalEvents, ownReport, reports]
    by_cases hfatal : fault.isFatal = true
    · rw [if_pos hfatal, if_pos hfatal, if_pos hfatal]
      rfl
    · rw [if_neg hfatal, if_neg hfatal, if_neg hfatal]
      rfl
  · rfl

section

variable {arguments : List Bytes} {given : CommandLine.Arguments}

theorem run_of_no_path (hparse : CommandLine.parse arguments = .ok given)
    (hpath : given.path = none) : run programDirectory reader arguments world
      = ⟨0, world.print
          "Usage: asminspect <path-to-assembly> [--namespace <namespaceName>]\n", ""⟩ := by
  have hconfig : given.config? = none := by
    rw [CommandLine.Arguments.config?, hpath]
    rfl
  have husage : CommandLine.usageLine ++ "\n"
      = "Usage: asminspect <path-to-assembly> [--namespace <namespaceName>]\n" := by
    decide +kernel
  rw [run, hparse]
  dsimp only
  rw [hconfig, husage]

theorem run_of_config (hparse : CommandLine.parse arguments = .ok given)
    (hconfig : given.config? = some c) : run programDirectory reader arguments world
      = inspect programDirectory reader given.verbose c world := by
  rw [run, hparse]
  dsimp only
  rw [hconfig]

end

/-- **Every failure is told of once.** Without a path there is nothing to
run, and the console shows how the program is used. -/
theorem run_tells_of_failure (programDirectory : Except IoCause Path) (reader : Reader)
    {arguments : List Bytes} {given : CommandLine.Arguments} (world : World)
    (hparse : CommandLine.parse arguments = .ok given) :
    (given.path = none → run programDirectory reader arguments world
        = ⟨0, world.print
            "Usage: asminspect <path-to-assembly> [--namespace <namespaceName>]\n", ""⟩)
      ∧ ∀ c, given.config? = some c →
        let ending := (Run.run programDirectory reader c).runFrom { world }
        let finish := run programDirectory reader arguments world
        (finish.exitCode = 0 ↔ ∃ outcome, ending.1 = .ok outcome)
          ∧ (finish.exitCode = 1 ↔ ∃ fault, ending.1 = .error fault)
          ∧ (ending.2.sink.refused = [] →
            finish.world.console
                = world.console ++ String.join ((printed c world ending).map Print.text)
              ∧ (printed c world ending).filterMap Print.report? = reports ending.1) := by
  refine ⟨run_of_no_path hparse, fun c hconfig => ?_⟩
  intro ending finish
  have hfinish : finish = inspect programDirectory reader given.verbose c world :=
    run_of_config hparse hconfig
  have hexit : finish.exitCode = match ending.1 with
      | .ok _ => 0
      | .error _ => 1 := by
    rw [hfinish]
    exact inspect_exitCode
  refine ⟨?_, ?_, fun haccepted => ⟨?_, report?_printed haccepted⟩⟩
  · rw [hexit]
    rcases ending.1 with fault | outcome <;> simp
  · rw [hexit]
    rcases ending.1 with fault | outcome <;> simp
  · rw [hfinish]
    exact inspect_console_of_accepted haccepted

/-- The same run with and without the file: told of by its log, and by the
program. Without arguments nothing fails. -/
theorem run_tells_of_broken_and_missing :
    let arguments := ["Game.dll", "--log-dir", "logs"].map Utf8.encode
    let ending (world : World) :=
      (Run.run (.error .noEntry) Run.brokenReader Run.gameConfig).runFrom { world }
    let finish (world : World) := run (.error .noEntry) Run.brokenReader arguments world
    (finish Run.gameWorld).exitCode = 1
      ∧ (finish Run.gameWorld).world.console
        = "1970-01-01 00:00:00 [INFO] Reading assembly: Game.dll\n" ++
          "1970-01-01 00:00:00 [ERROR] Unexpected error: No such file or directory (os error 2)\n"
      ∧ (printed Run.gameConfig Run.gameWorld (ending Run.gameWorld)).filterMap Print.report?
        = [(.runLog, "Unexpected error: No such file or directory (os error 2)")]
      ∧ (finish {}).exitCode = 1
      ∧ (finish {}).world.console = "[ERROR] File 'Game.dll' not found.\n"
      ∧ (printed Run.gameConfig {} (ending {})).filterMap Print.report?
        = [(.program, "File 'Game.dll' not found.")]
      ∧ (run (.error .noEntry) Run.brokenReader [] {}).exitCode = 0
      ∧ (run (.error .noEntry) Run.brokenReader [] {}).world.console
        = "Usage: asminspect <path-to-assembly> [--namespace <namespaceName>]\n" := by
  intro arguments ending finish
  have hgiven : (CommandLine.parse arguments).toOption.bind CommandLine.Arguments.config?
      = some Run.gameConfig := by decide +kernel
  have hbroken : (ending Run.gameWorld).2.sink.refused = [] := by decide +kernel
  have hmissing : (ending {}).2.sink.refused = [] := by decide +kernel
  have hfault {world : World} (h : (ending world).1.isOk = false) :
      ∃ fault, (ending world).1 = .error fault := by
    cases hend : (ending world).1 with
    | error fault => exact ⟨fault, rfl⟩
    | ok outcome =>
        rw [hend] at h
        cases h
  have hempty : CommandLine.parse [] = .ok {} := by decide +kernel
  have husage := (run_tells_of_failure (.error .noEntry) Run.brokenReader {} hempty).1 rfl
  cases hparse : CommandLine.parse arguments with
  | error stop =>
      rw [hparse] at hgiven
      cases hgiven
  | ok given =>
      rw [hparse] at hgiven
      obtain ⟨-, hgame⟩ :=
        run_tells_of_failure (.error .noEntry) Run.brokenReader Run.gameWorld hparse
      obtain ⟨-, hnothing⟩ := run_tells_of_failure (.error .noEntry) Run.brokenReader {} hparse
      obtain ⟨-, hexit, hconsole⟩ := hgame Run.gameConfig hgiven
      obtain ⟨-, hexit', hconsole'⟩ := hnothing Run.gameConfig hgiven
      refine ⟨hexit.mpr (hfault (by decide +kernel)), (hconsole hbroken).1.trans ?_,
        (hconsole hbroken).2.trans ?_, hexit'.mpr (hfault (by decide +kernel)),
        (hconsole' hmissing).1.trans ?_, (hconsole' hmissing).2.trans ?_,
        congrArg Finish.exitCode husage, (congrArg (·.world.console) husage).trans ?_⟩
        <;> decide +kernel

end Program

end SurfaceReport
