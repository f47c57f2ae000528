import SurfaceReport.Proofs.RunLogic

/-!
# How runs end

A run takes one of four courses (`run_course`): its assembly is missing,
it cannot have a log, it lists namespaces, or it writes a report. Only
the last two read the assembly and record anything, and both of them
hand on no fault that they have not made fatal and recorded as their last
event. What a caller can rely on (`run_ends`) is read off the four
courses one by one.
-/

namespace SurfaceReport

namespace Run

open Recording

/-! ## Logs -/

/-- Names the log of a run that writes a report, and creates it: its path,
where the file is, and the world with the file there. -/
def openLog (programDirectory : Except IoCause Path) (c : RunConfig) (world : World) :
    Except Fault (Path × Location × World) :=
  match c.logPath programDirectory world.now.1 with
  | .error fault => .error fault
  | .ok log =>
    match RunLog.create world.now.2 log with
    | .error fault => .error fault
    | .ok (place, later) => .ok (log, place, later)

variable {programDirectory : Except IoCause Path} {reader : Reader} {c : RunConfig} {world : World}
  {listing : Receiver}

theorem logPath_error {started : Moment} {fault : Fault}
    (h : c.logPath programDirectory started = .error fault) : ∃ cause, fault = .io cause := by
  rw [RunConfig.logPath] at h
  rcases c with ⟨assemblyPath, namespaces, _ | directory⟩
  · cases programDirectory with
    | error cause => exact ⟨cause, (Except.error.inj h).symm⟩
    | ok directory => cases h
  · cases h

theorem createLog_error {log : Path} {fault : Fault} (h : RunLog.create world log = .error fault) :
    ∃ cause, fault = .io cause := by
  rw [RunLog.create] at h
  split at h
  · exact ⟨_, (Except.error.inj h).symm⟩
  · cases h

theorem openLog_error {fault : Fault} (h : openLog programDirectory c world = .error fault) :
    ∃ cause, fault = .io cause := by
  rw [openLog] at h
  split at h
  case h_1 first hpath =>
    obtain rfl := Except.error.inj h
    exact logPath_error hpath
  case h_2 log hpath =>
    split at h
    case h_1 first hcreate =>
      obtain rfl := Except.error.inj h
      exact createLog_error hcreate
    case h_2 => cases h

theorem after_createLog_of_error {log : Path} {trail : Trail Stage} {fault : Fault}
    (h : RunLog.create trail.sink.world log = .error fault) :
    after (createLog log) trail = (.error fault, trail) := by
  rw [createLog, after_bind, after_onStage, h]

theorem after_createLog_of_ok {log : Path} {trail : Trail Stage} {place : Location} {world : World}
    (h : RunLog.create trail.sink.world log = .ok (place, world)) :
    after (createLog log) trail
      = (.ok place, ⟨{ trail.sink with world },
          trail.diagnostics ++ ["run log opened at " ++ log.shown]⟩) := by
  rw [createLog, after_bind, after_onStage, h]
  rfl

/-! ## Courses -/

variable (programDirectory reader c world) in
/-- The courses that a run can take if its log refuses nothing: what it
results in, the paths it opens and the events it has recorded. -/
inductive Course : Except Fault Outcome → List Path → List Event → Prop where
  | missing (hfile : world.files.isFile c.assemblyPath = false) :
      Course (.error (.fileNotFound c.assemblyPath)) [] []
  | logless {cause : IoCause} (hfile : world.files.isFile c.assemblyPath = true)
      (hmode : c.namespaces.isDiscovery = false)
      (hlog : openLog programDirectory c world = .error (.io cause)) :
      Course (.error (.io cause)) [] []
  | listed {result : Except Fault Outcome} (hfile : world.files.isFile c.assemblyPath = true)
      (hmode : c.namespaces.isDiscovery = true)
      (hfatal : ∀ fault, result = .error fault → fault.isFatal = true) :
      Course result [c.assemblyPath] (failureEvents result)
  | reported {result : Except Fault Outcome} {log : Path} {place : Location} {later : World}
      (hfile : world.files.isFile c.assemblyPath = true)
      (hmode : c.namespaces.isDiscovery = false)
      (hlog : openLog programDirectory c world = .ok (log, place, later))
      (hfatal : ∀ fault, result = .error fault → fault.isFatal = true)
      (houtcome : ∀ outcome, result = .ok outcome → outcome = .exported c.outputPath log) :
      Course result [c.assemblyPath] (reportEvents reader c log place later result)

theorem after_stage (trail : Trail Stage) : after stage trail = (.ok trail.sink, trail) := rfl

theorem after_now (trail : Trail Stage) :
    after now trail = (.ok trail.sink.world.now.1,
      { trail with sink := { trail.sink with world := trail.sink.world.now.2 } }) := rfl

theorem run_of_missing (hfile : world.files.isFile c.assemblyPath = false) :
    (run programDirectory reader c).runFrom { world, listing }
      = (.error (.fileNotFound c.assemblyPath), ⟨{ world, listing }, []⟩) := by
  rw [runFrom_eq, run, after_bind_of_ok (after_stage _), hfile]
  rfl

theorem run_of_discovery (hfile : world.files.isFile c.assemblyPath = true)
    (hmode : c.namespaces.isDiscovery = true) :
    (run programDirectory reader c).runFrom { world, listing }
      = after (reportFailure (Stage.sink none) do
          return .namespaces (← listNamespaces reader c.assemblyPath))
        ⟨{ world, listing }, []⟩ := by
  rw [runFrom_eq, run, after_bind_of_ok (after_stage _), hfile, hmode]
  rfl

/-- A run that writes a report has a log, or ends with what keeps it from one. -/
theorem run_of_report (hfile : world.files.isFile c.assemblyPath = true)
    (hmode : c.namespaces.isDiscovery = false) :
    (run programDirectory reader c).runFrom { world, listing }
      = match openLog programDirectory c world with
        | .error fault => (.error fault, ⟨{ world := world.now.2, listing }, []⟩)
        | .ok (log, place, later) =>
          after (reportFailure (Stage.sink (some place))
              (exportReport (Stage.sink (some place)) reader c log))
            ⟨{ world := later, listing }, ["run log opened at " ++ log.shown]⟩ := by
  rw [runFrom_eq, run, after_bind_of_ok (after_stage _), hfile, hmode, openLog]
  show after (now >>= _) _ = _
  rw [after_bind_of_ok (after_now _)]
  dsimp only
  cases c.logPath programDirectory world.now.1 with
  | error fault => rfl
  | ok log =>
      rw [after_bind_of_ok (after_ofExcept _ _)]
      dsimp only
      cases hcreate : RunLog.create world.now.2 log with
      | error fault => rw [after_bind_of_error (after_createLog_of_error hcreate)]
      | ok created =>
          rw [after_bind_of_ok (after_createLog_of_ok hcreate)]
          rfl

theorem run_course (haccepted :
      ((run programDirectory reader c).runFrom { world, listing }).2.sink.refused = []) :
    Course programDirectory reader c world
      ((run programDirectory reader c).runFrom { world, listing }).1
      ((run programDirectory reader c).runFrom { world, listing }).2.sink.opened
      ((run programDirectory reader c).runFrom { world, listing }).2.sink.recorded := by
  -- The three questions that a run asks, in its order: the file, the mode, the log.
  cases hfile : world.files.isFile c.assemblyPath with
  | false =>
      rw [run_of_missing hfile]
      exact .missing hfile
  | true =>
      cases hmode : c.namespaces.isDiscovery with
      | true =>
          rw [run_of_discovery hfile hmode] at haccepted ⊢
          obtain ⟨hopened, hrecorded, hfatal⟩ :=
            (ends_discovery reader c _).of_accepted rfl rfl haccepted
          rw [hopened, hrecorded]
          exact .listed hfile hmode hfatal
      | false =>
          rw [run_of_report hfile hmode] at haccepted ⊢
          cases hlog : openLog programDirectory c world with
          | error fault =>
              obtain ⟨cause, rfl⟩ := openLog_error hlog
              exact .logless hfile hmode hlog
          | ok found =>
              obtain ⟨log, place, later⟩ := found
              rw [hlog] at haccepted
              obtain ⟨hopened, hrecorded, hfatal, houtcome⟩ :=
                (ends_report place reader c log _).of_accepted rfl rfl haccepted
              dsimp only
              rw [hopened, hrecorded]
              exact .reported hfile hmode hlog hfatal houtcome

/-! ## How runs end -/

open Report in
theorem level_of_mem_acceptedEvents {rule : ExportRule} {source : Source} :
    ∀ e ∈ acceptedEvents rule source, e.level = .info := by
  intro e he
  cases hname : source.assemblyName with
  | error fault =>
      rw [acceptedEvents, build_of_nameless hname] at he
      exact absurd he List.not_mem_nil
  | ok name =>
      cases hmodules : source.modules with
      | error fault =>
          rw [acceptedEvents, build_of_unreadable_modules hname hmodules] at he
          exact absurd he List.not_mem_nil
      | ok modules =>
          rw [acceptedEvents_of_offers rule ⟨hname, hmodules⟩] at he
          simp only [moduleEvents, typeEvents, List.mem_flatMap, List.mem_cons, List.mem_append,
            List.mem_map] at he
          obtain ⟨m, -, rfl | ⟨t, -, rfl | ⟨f, -, rfl⟩ | ⟨method, -, rfl⟩⟩⟩ := he <;> rfl

theorem level_of_mem_buildingEvents {rule : ExportRule} {answer : Except Fault Source} :
    ∀ e ∈ buildingEvents rule answer, e.level = .info := by
  cases answer with
  | error fault => exact fun e he => absurd he List.not_mem_nil
  | ok source => exact level_of_mem_acceptedEvents

variable (programDirectory reader c world) in
/-- What can be relied on when a run has ended. -/
structure Ending (result : Except Fault Outcome) (opened : List Path) (events : List Event) :
    Prop where
  /-- There is no file at the path, and only then is that said. -/
  fileNotFound_iff : ∀ path, result = .error (.fileNotFound path)
    ↔ world.files.isFile c.assemblyPath = false ∧ path = c.assemblyPath
  /-- A report was to be written and no log could be had for it. -/
  io_iff : (∃ cause, result = .error (.io cause))
    ↔ world.files.isFile c.assemblyPath = true ∧ c.namespaces.isDiscovery = false
      ∧ ¬ ∃ found, openLog programDirectory c world = .ok found
  /-- After either of the two nothing was read and nothing recorded. -/
  untouched : ∀ fault, result = .error fault → fault.isFatal = false → opened = [] ∧ events = []
  /-- Every other run reads the assembly once and ends well or in a fatal fault. -/
  started : world.files.isFile c.assemblyPath = true →
    (c.namespaces.isDiscovery = true ∨ ∃ found, openLog programDirectory c world = .ok found) →
    opened = [c.assemblyPath]
      ∧ ((∃ outcome, result = .ok outcome) ∨ ∃ fault, result = .error fault ∧ fault.isFatal = true)
  /-- A fatal fault is the last event, and no other event is an error. -/
  fatal : ∀ fault, result = .error fault → fault.isFatal = true →
    ∃ before, events = before ++ [⟨.error, fault.message⟩] ∧ ∀ e ∈ before, e.level ≠ .error
  /-- A run that lists namespaces records its failure at most. -/
  discovery : world.files.isFile c.assemblyPath = true → c.namespaces.isDiscovery = true →
    events = failureEvents result
  /-- All events of a run that writes a report. -/
  report : ∀ log place later, world.files.isFile c.assemblyPath = true →
    c.namespaces.isDiscovery = false →
    openLog programDirectory c world = .ok (log, place, later) →
    events = reportEvents reader c log place later result
      ∧ ∀ outcome, result = .ok outcome → outcome = .exported c.outputPath log

theorem error_last_reportEvents {log : Path} {place : Location} {fault : Fault} :
    ∃ before, reportEvents reader c log place world (.error fault)
        = before ++ [⟨.error, fault.message⟩]
      ∧ ∀ e ∈ before, e.level ≠ .error := by
  refine ⟨_, rfl, ?_⟩
  intro e he
  rw [successEvents, List.append_nil, List.mem_cons] at he
  rcases he with rfl | hbuilding
  · exact nofun
  · rw [level_of_mem_buildingEvents e hbuilding]
    exact nofun

theorem ok_or_fatal {result : Except Fault Outcome}
    (hfatal : ∀ fault, result = .error fault → fault.isFatal = true) :
    (∃ outcome, result = .ok outcome) ∨ ∃ fault, result = .error fault ∧ fault.isFatal = true := by
  cases result with
  | ok outcome => exact .inl ⟨outcome, rfl⟩
  | error fault => exact .inr ⟨fault, rfl, hfatal fault rfl⟩

theorem ne_error {result : Except Fault Outcome} {fault : Fault}
    (hfatal : ∀ fault, result = .error fault → fault.isFatal = true)
    (hfault : fault.isFatal = false) : result ≠ .error fault := by
  intro h
  rw [hfatal fault h] at hfault
  cases hfault

theorem Course.ending {result : Except Fault Outcome} {opened : List Path} {events : List Event}
    (h : Course programDirectory reader c world result opened events) :
    Ending programDirectory reader c world result opened events := by
  cases h with
  | missing hfile =>
      constructor
      case fileNotFound_iff => simp [hfile, eq_comm]
      case io_iff => simp [hfile]
      case untouched => exact fun _ _ _ => ⟨rfl, rfl⟩
      case started => simp [hfile]
      case fatal => simp [Fault.isFatal]
      case discovery => simp [hfile]
      case report => simp [hfile]
  | logless hfile hmode hlog =>
      constructor
      case fileNotFound_iff => simp [hfile]
      case io_iff => simp [hfile, hmode, hlog]
      case untouched => exact fun _ _ _ => ⟨rfl, rfl⟩
      case started => simp [hmode, hlog]
      case fatal => simp [Fault.isFatal]
      case discovery => simp [hmode]
      case report => simp [hlog]
  | listed hfile hmode hfatal =>
      have hpath (path : Path) : result ≠ .error (.fileNotFound path) := ne_error hfatal rfl
      have hcause (cause : IoCause) : result ≠ .error (.io cause) := ne_error hfatal rfl
      constructor
      case fileNotFound_iff => simp [hfile, hpath]
      case io_iff => simp [hmode, hcause]
      case untouched => exact fun fault h hfault => absurd h (ne_error hfatal hfault)
      case started => exact fun _ _ => ⟨rfl, ok_or_fatal hfatal⟩
      case fatal =>
        rintro fault rfl -
        exact ⟨[], rfl, nofun⟩
      case discovery => exact fun _ _ => rfl
      case report => simp [hmode]
  | reported hfile hmode hlog hfatal houtcome =>
      have hpath (path : Path) : result ≠ .error (.fileNotFound path) := ne_error hfatal rfl
      have hcause (cause : IoCause) : result ≠ .error (.io cause) := ne_error hfatal rfl
      constructor
      case fileNotFound_iff => simp [hfile, hpath]
      case io_iff => simp [hlog, hcause]
      case untouched => exact fun fault h hfault => absurd h (ne_error hfatal hfault)
      case started => exact fun _ _ => ⟨rfl, ok_or_fatal hfatal⟩
      case fatal =>
        rintro fault rfl -
        exact error_last_reportEvents
      case discovery => simp [hmode]
      case report =>
        rintro log place later - - hlater
        rw [hlog, Except.ok.injEq, Prod.mk.injEq, Prod.mk.injEq] at hlater
        obtain ⟨rfl, rfl, rfl⟩ := hlater
        exact ⟨rfl, houtcome⟩

/-- **How runs end.** -/
theorem run_ends (programDirectory : Except IoCause Path) (reader : Reader) (c : RunConfig)
    (world : World) (listing : Receiver) (haccepted :
      ((run programDirectory reader c).runFrom { world, listing }).2.sink.refused = []) :
    Ending programDirectory reader c world
      ((run programDirectory reader c).runFrom { world, listing }).1
      ((run programDirectory reader c).runFrom { world, listing }).2.sink.opened
      ((run programDirectory reader c).runFrom { world, listing }).2.sink.recorded :=
  (run_course haccepted).ending

/-- An assembly beside a directory for logs, with no end of room. -/
def gameWorld : World where
  files := { entries := [([(Path.ofText "Game.dll").bytes], .file .empty),
    ([(Path.ofText "logs").bytes], .directory)] }

def gameConfig : RunConfig where
  assemblyPath := .ofText "Game.dll"
  logDirectory := some (.ofText "logs")

/-- A reader that cannot find the file after all. -/
def brokenReader : Reader := fun _ _ => (.error (.io .noEntry), [])

/-- A reader that finds the same source in every file. -/
def readerOf (source : Source) : Reader := fun _ _ => (.ok source, [])

theorem run_ends_with_broken_reader :
    let ending := (run (.error .noEntry) brokenReader gameConfig).runFrom { world := gameWorld }
    ending.2.sink.refused = []
      ∧ ending.2.sink.opened = [.ofText "Game.dll"]
      ∧ ending.2.sink.recorded = [.info "Reading assembly: Game.dll",
          ⟨.error, "Unexpected error: No such file or directory (os error 2)"⟩]
      ∧ ∃ fault, ending.1 = .error fault ∧ fault.isFatal = true := by
  intro ending
  have haccepted : ending.2.sink.refused = [] := by decide +kernel
  have hrecorded : ending.2.sink.recorded = [.info "Reading assembly: Game.dll",
      ⟨.error, "Unexpected error: No such file or directory (os error 2)"⟩] := by decide +kernel
  have hfails : ending.1.isOk = false := by decide +kernel
  have hfile : gameWorld.files.isFile gameConfig.assemblyPath = true := by decide +kernel
  have hlog : (openLog (.error .noEntry) gameConfig gameWorld).isOk = true := by decide +kernel
  have hending := run_ends (.error .noEntry) brokenReader gameConfig gameWorld {} haccepted
  obtain ⟨found, hfound⟩ : ∃ found, openLog (.error .noEntry) gameConfig gameWorld = .ok found := by
    cases hopen : openLog (.error .noEntry) gameConfig gameWorld with
    | ok found => exact ⟨found, rfl⟩
    | error fault =>
        rw [hopen] at hlog
        cases hlog
  obtain ⟨hopened, ⟨outcome, hok⟩ | hfault⟩ := hending.started hfile (.inr ⟨found, hfound⟩)
  · rw [hok] at hfails
    cases hfails
  · exact ⟨haccepted, hopened, hrecorded, hfault⟩

end Run

end SurfaceReport
