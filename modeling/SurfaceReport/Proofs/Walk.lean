import SurfaceReport.Report.Build

/-!
# The walk is a script that is played

The walk over the modules is three nested loops in a monad. What it does
depends on the declarations alone, so all of it can be said beforehand:
`script` lists what is recorded and diagnosed, in order, and `tree` is
the report. `build_eq` is the only place where the loops are looked at:
building is reading the source, playing the script, and handing back the
tree.

`play` does one step after the other and stops at the first refusal, so
that statements about receivers are inductions over a list of steps. A
receiver that accepts everything (`EventSink.AcceptsAll`) lets the whole
script pass (`build_accepted`).
-/

namespace SurfaceReport

/-! ## Steps -/

namespace Recording

/-- One thing that recording work does on its way. -/
inductive Step where
  | record (e : Event)
  | diagnose (lines : List String)

def Step.events : Step → List Event
  | record e => [e]
  | diagnose _ => []

def Step.notes : Step → List String
  | record _ => []
  | diagnose lines => lines

variable {σ α β : Type} (sink : EventSink σ)

/-- Takes the steps in order, up to the first event that is refused. -/
def play : List Step → Recording σ Unit
  | [] => pure ()
  | .record e :: rest => do
    record sink e
    play rest
  | .diagnose lines :: rest => do
    diagnose lines
    play rest

theorem play_append : ∀ first second : List Step,
    play sink (first ++ second) = do play sink first; play sink second
  | [], second => by simp [play]
  | .record e :: rest, second => by simp [play, play_append rest second]
  | .diagnose lines :: rest, second => by simp [play, play_append rest second]

/-- A loop whose rounds each play some steps plays all of them. -/
theorem mapM_play {work : α → Recording σ β} (steps : α → List Step) (value : α → β)
    (h : ∀ a, work a = do play sink (steps a); return value a) (xs : List α) :
    xs.mapM work = do play sink (xs.flatMap steps); return xs.map value := by
  induction xs with
  | nil => simp [play]
  | cons a xs ih => simp [h, ih, play_append]

/-- A loop whose rounds each record one event records all of them. -/
theorem mapM_record {work : α → Recording σ β} (event : α → Event) (value : α → β)
    (h : ∀ a, work a = do record sink (event a); return value a) (xs : List α) :
    xs.mapM work = do play sink ((xs.map event).map .record); return xs.map value := by
  have hsteps : xs.flatMap (fun a => [Step.record (event a)]) = (xs.map event).map .record := by
    rw [List.map_map, List.map_eq_flatMap]
    rfl
  rw [← hsteps]
  exact mapM_play sink _ value (fun a => by simp [h, play]) xs

end Recording

/-! ## Receivers that accept everything -/

namespace EventSink

variable {σ : Type}

/-- The receiver refuses no event, whatever it received before. -/
def AcceptsAll (sink : EventSink σ) : Prop :=
  ∀ e s, (sink.record e s).1 = .ok ()

def feed (sink : EventSink σ) : List Event → σ → σ
  | [], s => s
  | e :: rest, s => sink.feed rest (sink.record e s).2

theorem memory_acceptsAll : memory.AcceptsAll := fun _ _ => rfl

end EventSink

namespace Recording

variable {σ α β : Type} {sink : EventSink σ}

/-- What work results in and leaves behind, from some trail on. -/
def after (work : Recording σ α) (trail : Trail σ) : Except Fault α × Trail σ :=
  (ExceptT.run work).run trail

theorem runFrom_eq (work : Recording σ α) (s : σ) : work.runFrom s = after work ⟨s, []⟩ := rfl

@[simp] theorem after_pure (a : α) (trail : Trail σ) :
    after (pure a : Recording σ α) trail = (.ok a, trail) := rfl

theorem after_bind (work : Recording σ α) (next : α → Recording σ β) (trail : Trail σ) :
    after (work >>= next) trail
      = match after work trail with
        | (.ok a, later) => after (next a) later
        | (.error fault, later) => (.error fault, later) := by
  rw [after, ExceptT.run_bind, StateT.run_bind]
  rcases h : after work trail with ⟨_ | _, later⟩ <;> rw [after] at h <;> rw [h] <;> rfl

theorem after_bind_of_ok {work : Recording σ α} {next : α → Recording σ β}
    {trail later : Trail σ} {a : α} (h : after work trail = (.ok a, later)) :
    after (work >>= next) trail = after (next a) later := by
  rw [after_bind, h]

theorem exists_of_after_bind {work : Recording σ α} {next : α → Recording σ β} {trail : Trail σ}
    {b : β} (h : (after (work >>= next) trail).1 = .ok b) :
    ∃ a later, after work trail = (.ok a, later) ∧ (after (next a) later).1 = .ok b := by
  rw [after_bind] at h
  rcases hwork : after work trail with ⟨fault | a, later⟩ <;> rw [hwork] at h
  · cases h
  · exact ⟨a, later, rfl, h⟩

theorem after_record (e : Event) (trail : Trail σ) :
    after (record sink e) trail
      = ((sink.record e trail.sink).1, { trail with sink := (sink.record e trail.sink).2 }) :=
  rfl

theorem after_diagnose (lines : List String) (trail : Trail σ) :
    after (diagnose lines) trail
      = (.ok (), { trail with diagnostics := trail.diagnostics ++ lines }) :=
  rfl

theorem after_ofExcept (result : Except Fault α) (trail : Trail σ) :
    after (Recording.ofExcept result) trail = (result, trail) :=
  rfl

/-- A receiver that accepts everything gets every event of the steps, and
every diagnostic is left. -/
theorem after_play (hsink : sink.AcceptsAll) (steps : List Step) (trail : Trail σ) :
    after (play sink steps) trail
      = (.ok (), ⟨sink.feed (steps.flatMap Step.events) trail.sink,
          trail.diagnostics ++ steps.flatMap Step.notes⟩) := by
  induction steps generalizing trail with
  | nil => simp [play, EventSink.feed]
  | cons step rest ih =>
      cases step with
      | record e =>
          have hrec : after (record sink e) trail
              = (.ok (), { trail with sink := (sink.record e trail.sink).2 }) := by
            rw [after_record, hsink]
          rw [play, after_bind_of_ok hrec, ih]
          rfl
      | diagnose lines =>
          rw [play, after_bind_of_ok (after_diagnose lines trail), ih, List.append_assoc]
          rfl

end Recording

/-! ## The script of a report -/

namespace Report

open Recording

variable {σ : Type} (sink : EventSink σ) (rule : ExportRule)

def typeEvents (t : TypeDecl) : List Event :=
  typeEvent t :: ((exportedFields rule t).map fieldEvent
    ++ (exportedMethods rule t).map methodEvent)

def typeTree (t : TypeDecl) : Node :=
  typeNode t ((exportedFields rule t).map fieldNode ++ (exportedMethods rule t).map methodNode)

def moduleEvents (m : Module) : List Event :=
  moduleEvent m :: (exportedTypes rule m).flatMap (typeEvents rule)

def moduleTrees (m : Module) : List Node :=
  (exportedTypes rule m).map (typeTree rule)

def moduleScript (m : Module) : List Step :=
  .record (moduleEvent m) :: .diagnose (skippedTypes rule m)
    :: ((exportedTypes rule m).flatMap (typeEvents rule)).map .record

/-- What the walk through all modules does. -/
def script (modules : List Module) : List Step := modules.flatMap (moduleScript rule)

/-- The report of some modules. -/
def tree (name : String) (modules : List Module) : Node :=
  rootNode name (modules.flatMap (moduleTrees rule))

theorem walkType_eq (t : TypeDecl) :
    walkType sink rule t
      = do play sink ((typeEvents rule t).map .record); return typeTree rule t := by
  have hfields : (exportedFields rule t).mapM (walkField sink) = _ :=
    mapM_record sink fieldEvent fieldNode (fun _ => rfl) _
  have hmethods : (exportedMethods rule t).mapM (walkMethod sink) = _ :=
    mapM_record sink methodEvent methodNode (fun _ => rfl) _
  rw [walkType, hfields, hmethods]
  simp [typeEvents, typeTree, play, play_append]

theorem walkModule_eq (m : Module) :
    walkModule sink rule m
      = do play sink (moduleScript rule m); return moduleTrees rule m := by
  rw [walkModule, mapM_play sink _ _ (walkType_eq sink rule)]
  simp [moduleScript, moduleTrees, play, List.map_flatMap]

theorem build_eq (source : Source) :
    build sink rule source = do
      let name ← Recording.ofExcept source.assemblyName
      let modules ← source.read
      play sink (script rule modules)
      return tree rule name modules := by
  simp [build, mapM_play sink _ _ (walkModule_eq sink rule), script, tree, List.flatMap_def]

/-! ## What a readable source leads to -/

theorem events_moduleScript (m : Module) :
    (moduleScript rule m).flatMap Step.events = moduleEvents rule m := by
  simp [moduleScript, moduleEvents, Step.events, List.flatMap_map]

theorem notes_moduleScript (m : Module) :
    (moduleScript rule m).flatMap Step.notes = skippedTypes rule m := by
  simp [moduleScript, Step.notes, List.flatMap_map]

theorem events_script (modules : List Module) :
    (script rule modules).flatMap Step.events = modules.flatMap (moduleEvents rule) := by
  simp only [script, List.flatMap_assoc, events_moduleScript]

theorem notes_script (modules : List Module) :
    (script rule modules).flatMap Step.notes = modules.flatMap (skippedTypes rule) := by
  simp only [script, List.flatMap_assoc, notes_moduleScript]

end Report

/-- The source can be read, and this is what it offers. -/
structure Source.Offers (source : Source) (name : String) (modules : List Module) : Prop where
  assemblyName_eq : source.assemblyName = .ok name
  modules_eq : source.modules = .ok modules

/-- Modules in which names meet: types of different namespaces with one
full name, overloads, a name beyond ASCII, and names that compilers make. -/
def modulesWithMeetingNames : List Module :=
  [⟨"Second.netmodule",
      [{ ns := "A.B", name := "C", visibility := .isPublic,
         fields := [⟨"é", "System.Int32", .isPublic⟩, ⟨"z", "System.Byte[]", .isPublic⟩,
           ⟨"<N>k__BackingField", "System.String", .isPublic⟩],
         methods := [⟨"Move", "System.Void", .isPublic, .ordinary, [⟨"z", "System.Single"⟩]⟩,
           ⟨".ctor", "System.Void", .isPublic, .constructor, []⟩,
           ⟨"Move", "System.Boolean", .isPublic, .ordinary, []⟩] },
       { ns := "A", name := "B.C" }, { ns := "", name := "<Module>" }]⟩,
    ⟨"First.dll", [{ ns := "", name := "Program" }, { ns := "A", name := "Alpha" }]⟩]

theorem offers_meeting_names :
    (Source.ofModules "Game" modulesWithMeetingNames).Offers "Game" modulesWithMeetingNames :=
  ⟨rfl, rfl⟩

namespace Recording

theorem after_read {σ : Type} {source : Source} {name : String} {modules : List Module}
    (h : source.Offers name modules) (trail : Trail σ) :
    after source.read trail
      = (.ok modules, { trail with diagnostics := trail.diagnostics ++ source.readingNotes }) := by
  rw [Source.read, after_bind_of_ok (after_diagnose _ trail), after_ofExcept, h.modules_eq]

end Recording

namespace Report

open Recording

variable {σ : Type} {sink : EventSink σ} {source : Source} {name : String} {modules : List Module}

/-- From a readable source on, building is playing its script. -/
theorem runFrom_build (hsource : source.Offers name modules) (rule : ExportRule) (s : σ) :
    (build sink rule source).runFrom s
      = after (do play sink (script rule modules); return tree rule name modules)
        ⟨s, source.readingNotes⟩ := by
  have hname : after (Recording.ofExcept source.assemblyName) (⟨s, []⟩ : Trail σ)
      = (.ok name, ⟨s, []⟩) := by
    rw [after_ofExcept, hsource.assemblyName_eq]
  rw [runFrom_eq, build_eq, after_bind_of_ok hname, after_bind_of_ok (after_read hsource _),
    List.nil_append]

/-- A readable source and a receiver that accepts everything lead to the
report; the receiver gets all events. -/
theorem build_accepted (hsource : source.Offers name modules) (hsink : sink.AcceptsAll)
    (rule : ExportRule) (s : σ) :
    (build sink rule source).runFrom s
      = (.ok (tree rule name modules), ⟨sink.feed (modules.flatMap (moduleEvents rule)) s,
          source.readingNotes ++ modules.flatMap (skippedTypes rule)⟩) := by
  rw [runFrom_build hsource, after_bind_of_ok (after_play hsink _ _), after_pure, events_script,
    notes_script]

/-- Whatever is recorded on the way: what is built is the report of some modules. -/
theorem exists_tree_of_build {rule : ExportRule} {s : σ} {root : Node}
    (h : ((build sink rule source).runFrom s).1 = .ok root) :
    ∃ name modules, root = tree rule name modules := by
  rw [runFrom_eq, build_eq] at h
  obtain ⟨name, afterName, -, h⟩ := exists_of_after_bind h
  obtain ⟨modules, afterModules, -, h⟩ := exists_of_after_bind h
  obtain ⟨-, afterScript, -, h⟩ := exists_of_after_bind h
  exact ⟨name, modules, (Except.ok.inj h).symm⟩

end Report

end SurfaceReport
