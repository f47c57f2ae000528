import SurfaceReport.Proofs.RunLogic

/-!
# Relations that a run keeps to

Some things hold between the stage before a piece of work and the stage
behind it whatever the work results in: which files differ, what the
console and the log's file have gained. Such a relation is settled by the
single steps. If it admits the opening of an assembly and the recording
of an event (`Stage.Admits`), all work that is made of these keeps to it,
by the rules of composition: the walk through the modules
(`keeps_build`), what a run does before it writes its report
(`keeps_prepareReport`), and the folding of a fault at the end
(`keeps_behind_reportFailure`).

A run that writes a report is cut in two where it comes to write it
(`exportReport_eq`). What comes before is the same work whether the
report can be written or not.
-/

namespace SurfaceReport

namespace Recording

variable {σ α β : Type} {R : σ → σ → Prop} {work : Recording σ α} {next : α → Recording σ β}

/-- The state behind the work is related to the state before it. -/
def Keeps (R : σ → σ → Prop) (work : Recording σ α) : Prop :=
  ∀ trail : Trail σ, R trail.sink (after work trail).2.sink

theorem Keeps.bind (htrans : ∀ s middle later, R s middle → R middle later → R s later)
    (h : Keeps R work) (hnext : ∀ a, Keeps R (next a)) : Keeps R (work >>= next) := by
  intro trail
  have hwork := h trail
  rw [after_bind]
  rcases hafter : after work trail with ⟨fault | a, later⟩ <;> rw [hafter] at hwork
  · exact hwork
  · exact htrans _ _ _ hwork (hnext a later)

theorem Keeps.tryCatch {handler : Fault → Recording σ α}
    (htrans : ∀ s middle later, R s middle → R middle later → R s later)
    (h : Keeps R work) (hhandler : ∀ fault, Keeps R (handler fault)) :
    Keeps R (tryCatch work handler) := by
  intro trail
  have hwork := h trail
  rw [after_tryCatch]
  rcases hafter : after work trail with ⟨fault | a, later⟩ <;> rw [hafter] at hwork
  · exact htrans _ _ _ hwork (hhandler fault later)
  · exact hwork

end Recording

/-- A relation between stages that holds between the stages before and
behind the opening of an assembly or the recording of an event. -/
structure Stage.Admits (file : Option Location) (R : Stage → Stage → Prop) : Prop where
  refl : ∀ s, R s s
  trans : ∀ s middle later, R s middle → R middle later → R s later
  opened : ∀ (path : Path) (s : Stage), R s { s with opened := s.opened ++ [path] }
  recorded : ∀ (e : Event) (s : Stage), R s ((Stage.sink file).record e s).2

namespace Run

open Recording

variable {file : Option Location} {R : Stage → Stage → Prop} (h : Stage.Admits file R)
include h

/-! ## Steps -/

theorem keeps_pure {α : Type} (a : α) : Keeps R (pure a : Recording Stage α) :=
  fun trail => h.refl trail.sink

theorem keeps_diagnose (lines : List String) : Keeps R (diagnose lines) :=
  fun trail => h.refl trail.sink

theorem keeps_ofExcept {α : Type} (result : Except Fault α) :
    Keeps R (Recording.ofExcept result) :=
  fun trail => h.refl trail.sink

theorem keeps_record (e : Event) : Keeps R (record (Stage.sink file) e) :=
  fun trail => h.recorded e trail.sink

theorem keeps_play (steps : List Step) : Keeps R (play (Stage.sink file) steps) := by
  induction steps with
  | nil => exact keeps_pure h ()
  | cons step rest ih =>
      cases step with
      | record e => exact (keeps_record h e).bind h.trans fun _ => ih
      | diagnose lines => exact (keeps_diagnose h lines).bind h.trans fun _ => ih

theorem keeps_read (source : Source) : Keeps R source.read :=
  (keeps_diagnose h _).bind h.trans fun _ => keeps_ofExcept h _

theorem keeps_build (rule : ExportRule) (source : Source) :
    Keeps R (Report.build (Stage.sink file) rule source) := by
  rw [Report.build_eq]
  refine (keeps_ofExcept h _).bind h.trans fun name => ?_
  refine (keeps_read h source).bind h.trans fun modules => ?_
  exact (keeps_play h _).bind h.trans fun _ => keeps_pure h _

theorem keeps_openAssembly (reader : Reader) (path : Path) :
    Keeps R (openAssembly reader path) :=
  fun trail => h.opened path trail.sink

/-! ## Failures -/

theorem keeps_failure {α : Type} (fault : Fault) :
    Keeps R (do
      tryCatch (record (Stage.sink file) ⟨.error, fault.toFatal.message⟩) fun refusal =>
        diagnose ["could not record failure in the run log: " ++ refusal.message]
      throw fault.toFatal : Recording Stage α) := by
  refine Keeps.bind h.trans ?_ fun _ trail => h.refl trail.sink
  exact (keeps_record h _).tryCatch h.trans fun _ => keeps_diagnose h _

/-- Folding the fault of some work adds one record at most. -/
theorem keeps_behind_reportFailure {α : Type} (work : Recording Stage α) (trail : Trail Stage) :
    R (after work trail).2.sink (after (reportFailure (Stage.sink file) work) trail).2.sink := by
  unfold reportFailure
  rw [after_tryCatch]
  rcases after work trail with ⟨fault | a, later⟩
  · exact keeps_failure h fault later
  · exact h.refl later.sink

theorem keeps_reportFailure {α : Type} {work : Recording Stage α} (hwork : Keeps R work) :
    Keeps R (reportFailure (Stage.sink file) work) :=
  fun trail => h.trans _ _ _ (hwork trail) (keeps_behind_reportFailure h work trail)

/-! ## Reports -/

omit h in
/-- What a run does before it writes its report: it announces the
assembly, opens it and builds. -/
def prepareReport (sink : EventSink Stage) (reader : Reader) (c : RunConfig) :
    Recording Stage Node := do
  Recording.record sink (readingEvent c)
  let source ← openAssembly reader c.assemblyPath
  Report.build sink (.within c.namespaces.constraint?) source

omit h in
/-- What a run does with the report that it has built. -/
def finishReport (sink : EventSink Stage) (c : RunConfig) (log : Path) (root : Node) :
    Recording Stage Outcome := do
  writeDocument root c.outputPath
  Recording.record sink
    ⟨.success, "Export complete. XML saved to '" ++ c.outputPath.shown ++ "'"⟩
  Recording.record sink (.info ("Log file saved as '" ++ log.shown ++ "'"))
  return .exported c.outputPath log

omit h in
theorem exportReport_eq (sink : EventSink Stage) (reader : Reader) (c : RunConfig) (log : Path) :
    exportReport sink reader c log
      = (do let root ← prepareReport sink reader c; finishReport sink c log root) := by
  simp [exportReport, writeReport, prepareReport, finishReport, readingEvent]

theorem keeps_prepareReport (reader : Reader) (c : RunConfig) :
    Keeps R (prepareReport (Stage.sink file) reader c) := by
  refine (keeps_record h _).bind h.trans fun _ => ?_
  exact (keeps_openAssembly h reader _).bind h.trans fun source => keeps_build h _ source

/-- Once its report is written, a run only records. -/
theorem keeps_behind_writeDocument (c : RunConfig) (log : Path) (root : Node)
    (trail : Trail Stage) :
    R (after (writeDocument root c.outputPath) trail).2.sink
      (after (finishReport (Stage.sink file) c log root) trail).2.sink := by
  unfold finishReport
  rw [after_bind]
  rcases after (writeDocument root c.outputPath) trail with ⟨fault | -, later⟩
  · exact h.refl later.sink
  · refine Keeps.bind h.trans (keeps_record h _) (fun _ => ?_) later
    exact (keeps_record h _).bind h.trans fun _ => keeps_pure h _

theorem keeps_exportReport (reader : Reader) (c : RunConfig) (log : Path)
    (hdocument : ∀ root, Keeps R (writeDocument root c.outputPath)) :
    Keeps R (exportReport (Stage.sink file) reader c log) := by
  rw [exportReport_eq]
  exact (keeps_prepareReport h reader c).bind h.trans fun root trail =>
    h.trans _ _ _ (hdocument root trail) (keeps_behind_writeDocument h c log root trail)

/-! ## Listings -/

theorem keeps_listNamespaces (reader : Reader) (path : Path)
    (hlisting : ∀ (s : Stage) (listing : Receiver), R s { s with listing }) :
    Keeps R (listNamespaces reader path) := by
  refine (keeps_openAssembly h reader path).bind h.trans fun source => ?_
  refine Keeps.bind h.trans ((keeps_read h source).bind h.trans fun _ => keeps_pure h _) ?_
  intro names
  exact Keeps.bind h.trans (fun trail => hlisting trail.sink _) fun _ => keeps_pure h _

/-- A run that lists namespaces. -/
theorem keeps_discovery (reader : Reader) (c : RunConfig)
    (hlisting : ∀ (s : Stage) (listing : Receiver), R s { s with listing }) :
    Keeps R (reportFailure (Stage.sink file) do
      return Outcome.namespaces (← listNamespaces reader c.assemblyPath)) :=
  keeps_reportFailure h
    ((keeps_listNamespaces h reader _ hlisting).bind h.trans fun _ => keeps_pure h _)

end Run

end SurfaceReport
