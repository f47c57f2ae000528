import SurfaceReport.Export
import SurfaceReport.Proofs.Refusal

/-!
# What the steps of a run open and record

A run is made of steps that open files, hand events to the log, and do
neither. What a step opens and records is said by `Ends`, a postcondition
on the result, the paths opened and the events recorded. It is asked for
only if the log refuses none of the events: work that had an event
refused has ended in a fault, and nothing more is said of it.

There is one rule for each way in which work is put together
(`Ends.bind`, and `Ends.behind` for work that neither opens nor records)
and one statement for each step. A script records all of its events
(`ends_play`), so building a report records what a list would get
(`ends_build`).
-/

namespace SurfaceReport

/-! ## Stages -/

/-- On the way from one stage to the other these paths were opened and
these events recorded, and none was refused. -/
structure Stage.Gains (s later : Stage) (opened : List Path) (events : List Event) : Prop where
  opened_eq : later.opened = s.opened ++ opened
  recorded_eq : later.recorded = s.recorded ++ events
  refused_eq : later.refused = s.refused

namespace Stage.Gains

variable {s middle later : Stage} {opened openedLater : List Path} {events eventsLater : List Event}

theorem refl (s : Stage) : s.Gains s [] [] :=
  ⟨(List.append_nil _).symm, (List.append_nil _).symm, rfl⟩

theorem trans (h : s.Gains middle opened events)
    (hlater : middle.Gains later openedLater eventsLater) :
    s.Gains later (opened ++ openedLater) (events ++ eventsLater) where
  opened_eq := by rw [hlater.opened_eq, h.opened_eq, List.append_assoc]
  recorded_eq := by rw [hlater.recorded_eq, h.recorded_eq, List.append_assoc]
  refused_eq := by rw [hlater.refused_eq, h.refused_eq]

end Stage.Gains

theorem Stage.record_eq (file : Option Location) (e : Event) (s : Stage) :
    (Stage.sink file).record e s = ((RunLog.record file e s.world).1,
      { s with world := (RunLog.record file e s.world).2 }.keep e
        (RunLog.record file e s.world).1) :=
  rfl

/-- An event is taken and recorded, or it is refused. -/
theorem Stage.sink_record (file : Option Location) (e : Event) (s : Stage) :
    (((Stage.sink file).record e s).1 = .ok ()
        ∧ s.Gains ((Stage.sink file).record e s).2 [] [e])
      ∨ ((∃ fault, ((Stage.sink file).record e s).1 = .error fault)
        ∧ s.refused.length < ((Stage.sink file).record e s).2.refused.length) := by
  rw [Stage.record_eq]
  cases (RunLog.record file e s.world).1 with
  | ok taken => exact .inl ⟨rfl, ⟨(List.append_nil _).symm, rfl, rfl⟩⟩
  | error fault =>
      refine .inr ⟨⟨fault, rfl⟩, ?_⟩
      rw [Stage.keep, List.length_append]
      exact Nat.lt_succ_self _

namespace Recording

variable {α β : Type} {work : Recording Stage α} {next : α → Recording Stage β}
  {trail later : Trail Stage} {file : Option Location}

/-! ## Work -/

/-- The work is ended by a fault, and an event was refused on its way. -/
def IsRefused (work : Recording Stage α) (trail : Trail Stage) : Prop :=
  (∃ fault, (after work trail).1 = .error fault)
    ∧ trail.sink.refused.length < (after work trail).2.sink.refused.length

/-- If the log refuses none of its events, the work's result, the paths
it opens and the events it records are related so. -/
def Ends (work : Recording Stage α) (trail : Trail Stage)
    (post : Except Fault α → List Path → List Event → Prop) : Prop :=
  IsRefused work trail ∨ ∃ opened events,
    trail.sink.Gains (after work trail).2.sink opened events
      ∧ post (after work trail).1 opened events

theorem ends_of_after {result : Except Fault α} {opened : List Path} {events : List Event}
    {post : Except Fault α → List Path → List Event → Prop} (h : after work trail = (result, later))
    (hgains : trail.sink.Gains later.sink opened events) (hpost : post result opened events) :
    Ends work trail post := by
  refine .inr ⟨opened, events, ?_, ?_⟩ <;> rw [h] <;> assumption

theorem ends_of_refused {post : Except Fault α → List Path → List Event → Prop} {fault : Fault}
    (h : after work trail = (.error fault, later))
    (hgrown : trail.sink.refused.length < later.sink.refused.length) : Ends work trail post := by
  refine .inl ⟨⟨fault, ?_⟩, ?_⟩ <;> rw [h]
  exact hgrown

theorem Ends.mono {mid post : Except Fault α → List Path → List Event → Prop}
    (h : Ends work trail mid) (himp : ∀ result opened events, mid result opened events →
      post result opened events) : Ends work trail post := by
  rcases h with hrefused | ⟨opened, events, hgains, hmid⟩
  · exact .inl hrefused
  · exact .inr ⟨opened, events, hgains, himp _ _ _ hmid⟩

/-- Work behind other work goes on with its result, or ends with its fault. -/
theorem Ends.bind {mid : Except Fault α → List Path → List Event → Prop}
    {post : Except Fault β → List Path → List Event → Prop} (h : Ends work trail mid)
    (hfault : ∀ fault opened events, mid (.error fault) opened events →
      post (.error fault) opened events)
    (hnext : ∀ a later opened events, after work trail = (.ok a, later) →
      mid (.ok a) opened events → Ends (next a) later fun result openedLater eventsLater =>
        post result (opened ++ openedLater) (events ++ eventsLater)) :
    Ends (work >>= next) trail post := by
  rcases hwork : after work trail with ⟨fault | a, later⟩
  · rw [Ends, IsRefused, after_bind_of_error hwork]
    rw [Ends, IsRefused, hwork] at h
    rcases h with ⟨-, hgrown⟩ | ⟨opened, events, hgains, hmid⟩
    · exact .inl ⟨⟨fault, rfl⟩, hgrown⟩
    · exact .inr ⟨opened, events, hgains, hfault fault opened events hmid⟩
  · rw [Ends, IsRefused, hwork] at h
    rw [Ends, IsRefused, after_bind_of_ok hwork]
    rcases h with ⟨⟨fault, hfault⟩, -⟩ | ⟨opened, events, hgains, hmid⟩
    · cases hfault
    · rcases hnext a later opened events hwork hmid with ⟨herror, hgrown⟩ | ⟨o, e, hgains', hpost⟩
      · rw [hgains.refused_eq] at hgrown
        exact .inl ⟨herror, hgrown⟩
      · exact .inr ⟨_, _, hgains.trans hgains', hpost⟩

/-! ## Silent work -/

/-- The work opens nothing and hands nothing to the log. -/
def IsSilent (work : Recording Stage α) : Prop :=
  ∀ trail : Trail Stage, trail.sink.Gains (after work trail).2.sink [] []

theorem silent_pure (a : α) : IsSilent (pure a) := fun trail => .refl trail.sink

theorem silent_diagnose (lines : List String) : IsSilent (diagnose lines) :=
  fun trail => .refl trail.sink

theorem silent_ofExcept (result : Except Fault α) : IsSilent (Recording.ofExcept result) :=
  fun trail => .refl trail.sink

theorem silent_onStage {act : Stage → Except Fault α × Stage}
    (h : ∀ s : Stage, s.Gains (act s).2 [] []) : IsSilent (Run.onStage act) :=
  fun trail => h trail.sink

theorem IsSilent.bind (h : IsSilent work) (hnext : ∀ a, IsSilent (next a)) :
    IsSilent (work >>= next) := by
  intro trail
  have hgains := h trail
  rw [after_bind]
  rcases hwork : after work trail with ⟨fault | a, later⟩ <;> rw [hwork] at hgains
  · exact hgains
  · exact hgains.trans (hnext a later)

theorem silent_read (source : Source) : IsSilent source.read :=
  (silent_diagnose _).bind fun _ => silent_ofExcept _

/-- Behind silent work it is as if there had been none, but for what it
results in. -/
theorem Ends.behind {post : Except Fault β → List Path → List Event → Prop} (h : IsSilent work)
    (hfault : ∀ fault, (after work trail).1 = .error fault → post (.error fault) [] [])
    (hnext : ∀ a later, after work trail = (.ok a, later) → Ends (next a) later post) :
    Ends (work >>= next) trail post := by
  have hgains := h trail
  rcases hwork : after work trail with ⟨fault | a, later⟩ <;> rw [hwork] at hgains
  · exact ends_of_after (after_bind_of_error hwork) hgains (hfault fault (by rw [hwork]))
  · rw [Ends, IsRefused, after_bind_of_ok hwork]
    rcases hnext a later hwork with ⟨herror, hgrown⟩ | ⟨opened, events, hgains', hpost⟩
    · rw [hgains.refused_eq] at hgrown
      exact .inl ⟨herror, hgrown⟩
    · exact .inr ⟨opened, events, hgains.trans hgains', hpost⟩

/-! ## Work that records -/

theorem ends_record (file : Option Location) (e : Event) (trail : Trail Stage) :
    Ends (record (Stage.sink file) e) trail fun result opened events =>
      result = .ok () ∧ opened = [] ∧ events = [e] := by
  rcases Stage.sink_record file e trail.sink with ⟨hanswer, hgains⟩ | hrefused
  · exact ends_of_after (after_record e trail) hgains ⟨hanswer, rfl, rfl⟩
  · exact .inl hrefused

/-- A script that is played to its end has all its events recorded. -/
theorem ends_play (file : Option Location) (steps : List Step) (trail : Trail Stage) :
    Ends (play (Stage.sink file) steps) trail fun result opened events =>
      result = .ok () ∧ opened = [] ∧ events = steps.flatMap Step.events := by
  induction steps generalizing trail with
  | nil => exact ends_of_after (after_pure () trail) (.refl _) ⟨rfl, rfl, rfl⟩
  | cons step rest ih =>
      cases step with
      | record e =>
          refine (ends_record file e trail).bind (fun fault _ _ h => nomatch h.1) ?_
          rintro - later - - - ⟨-, rfl, rfl⟩
          exact (ih later).mono fun result opened events ⟨hresult, hopened, hevents⟩ =>
            ⟨hresult, by rw [hopened]; rfl, by rw [hevents]; rfl⟩
      | diagnose lines =>
          exact .behind (silent_diagnose lines) (fun _ h => nomatch h) fun _ later _ => ih later

open Report in
/-- Building has the same events recorded that a list would get. -/
theorem ends_build (file : Option Location) (rule : ExportRule) (source : Source)
    (trail : Trail Stage) :
    Ends (build (Stage.sink file) rule source) trail fun _ opened events =>
      opened = [] ∧ events = acceptedEvents rule source := by
  rw [build_eq]
  refine .behind (silent_ofExcept _) (fun fault hname => ⟨rfl, ?_⟩) fun name afterName hname => ?_
  · rw [acceptedEvents, build_of_nameless hname]
  refine .behind (silent_read source) (fun fault hmodules => ⟨rfl, ?_⟩)
    fun modules afterModules hmodules => ?_
  · rw [acceptedEvents, build_of_unreadable_modules (congrArg Prod.fst hname) hmodules]
  have hsource : source.Offers name modules := ⟨congrArg Prod.fst hname, congrArg Prod.fst hmodules⟩
  refine (ends_play file (script rule modules) afterModules).bind ?_ ?_
  · rintro fault - - ⟨hplayed, -⟩
    cases hplayed
  rintro - later - - - ⟨-, rfl, rfl⟩
  refine ends_of_after (after_pure _ later) (.refl _) ⟨rfl, ?_⟩
  rw [events_script, acceptedEvents_of_offers rule hsource, List.append_nil]

theorem Ends.of_accepted {α : Type} {work : Recording Stage α} {s : Stage}
    {post : Except Fault α → List Path → List Event → Prop} {notes : List String}
    (h : Ends work ⟨s, notes⟩ post) (hopened : s.opened = []) (hrecorded : s.recorded = [])
    (haccepted : (after work ⟨s, notes⟩).2.sink.refused = []) :
    post (after work ⟨s, notes⟩).1 (after work ⟨s, notes⟩).2.sink.opened
      (after work ⟨s, notes⟩).2.sink.recorded := by
  rcases h with ⟨-, hgrown⟩ | ⟨opened, events, hgains, hpost⟩
  · rw [haccepted] at hgrown
    exact absurd hgrown (Nat.not_lt_zero _)
  · rwa [hgains.opened_eq, hgains.recorded_eq, hopened, hrecorded, List.nil_append,
      List.nil_append]

/-! ## Work that is caught -/

theorem after_tryCatch {σ α : Type} (work : Recording σ α) (handler : Fault → Recording σ α)
    (trail : Trail σ) :
    after (tryCatch work handler) trail
      = match after work trail with
        | (.ok a, later) => (.ok a, later)
        | (.error fault, later) => after (handler fault) later := by
  rw [after, ExceptT.run_tryCatch, StateT.run_bind]
  rcases hwork : after work trail with ⟨_ | _, later⟩ <;> rw [after] at hwork <;> rw [hwork] <;> rfl

theorem after_tryCatch_of_ok {σ α : Type} {work : Recording σ α} {handler : Fault → Recording σ α}
    {trail later : Trail σ} {a : α} (h : after work trail = (.ok a, later)) :
    after (tryCatch work handler) trail = (.ok a, later) := by
  rw [after_tryCatch, h]

theorem after_tryCatch_of_error {σ α : Type} {work : Recording σ α}
    {handler : Fault → Recording σ α} {trail later : Trail σ} {fault : Fault}
    (h : after work trail = (.error fault, later)) :
    after (tryCatch work handler) trail = after (handler fault) later := by
  rw [after_tryCatch, h]

end Recording

namespace Run

open Recording

theorem after_onStage {α : Type} (act : Stage → Except Fault α × Stage) (trail : Trail Stage) :
    after (onStage act) trail
      = ((act trail.sink).1, { trail with sink := (act trail.sink).2 }) :=
  rfl

/-! ## Reading and listing -/

theorem after_openAssembly (reader : Reader) (path : Path) (trail : Trail Stage) :
    after (openAssembly reader path) trail
      = ((reader trail.sink.world.files path).1,
          ⟨{ trail.sink with opened := trail.sink.opened ++ [path] },
            trail.diagnostics ++ (reader trail.sink.world.files path).2⟩) :=
  rfl

theorem ends_openAssembly (reader : Reader) (path : Path) (trail : Trail Stage) :
    Ends (openAssembly reader path) trail fun result opened events =>
      result = (reader trail.sink.world.files path).1 ∧ opened = [path] ∧ events = [] :=
  ends_of_after (after_openAssembly reader path trail)
    ⟨rfl, (List.append_nil _).symm, rfl⟩ ⟨rfl, rfl, rfl⟩

theorem silent_writeDocument (root : Node) (path : Path) : IsSilent (writeDocument root path) :=
  silent_onStage fun _ => ⟨(List.append_nil _).symm, (List.append_nil _).symm, rfl⟩

theorem silent_discoverNamespaces (source : Source) :
    IsSilent (discoverNamespaces source : Recording Stage (List String)) :=
  (silent_read source).bind fun _ => silent_pure _

theorem silent_writeListing (names : List String) :
    IsSilent (onStage fun s =>
      let (answer, listing) := writeListing s.listing names
      (answer, { s with listing })) :=
  silent_onStage fun _ => ⟨(List.append_nil _).symm, (List.append_nil _).symm, rfl⟩

/-- Listing namespaces reads the assembly once and records nothing. -/
theorem ends_listNamespaces (reader : Reader) (path : Path) (trail : Trail Stage) :
    Ends (listNamespaces reader path) trail fun _ opened events =>
      opened = [path] ∧ events = [] := by
  refine (ends_openAssembly reader path trail).bind (fun _ _ _ h => h.2) ?_
  rintro source later - - - ⟨-, rfl, rfl⟩
  refine .behind (silent_discoverNamespaces source) (fun _ _ => ⟨rfl, rfl⟩) fun names later _ => ?_
  refine .behind (silent_writeListing names) (fun _ _ => ⟨rfl, rfl⟩) fun _ later _ => ?_
  exact ends_of_after (after_pure _ later) (.refl _) ⟨rfl, rfl⟩

/-! ## Writing a report -/

/-- The events of building a report of what a reader answered. -/
def buildingEvents (rule : ExportRule) : Except Fault Source → List Event
  | .ok source => Report.acceptedEvents rule source
  | .error _ => []

def readingEvent (c : RunConfig) : Event :=
  .info ("Reading assembly: " ++ c.assemblyPath.shown)

/-- The last events of a run that writes a report. -/
def successEvents (c : RunConfig) (log : Path) {α : Type} : Except Fault α → List Event
  | .ok _ => [⟨.success, "Export complete. XML saved to '" ++ c.outputPath.shown ++ "'"⟩,
      .info ("Log file saved as '" ++ log.shown ++ "'")]
  | .error _ => []

/-- The last event of a run that fails. -/
def failureEvents {α : Type} : Except Fault α → List Event
  | .ok _ => []
  | .error fault => [⟨.error, fault.message⟩]

theorem world_sink_record (file : Option Location) (e : Event) (s : Stage) :
    ((Stage.sink file).record e s).2.world = (RunLog.record file e s.world).2 := by
  rw [Stage.record_eq]
  cases (RunLog.record file e s.world).1 <;> rfl

/-- Writing a report reads the assembly once, from the files that are
there when the log has its first line. -/
theorem ends_writeReport (file : Option Location) (reader : Reader) (c : RunConfig)
    (trail : Trail Stage) :
    Ends (writeReport (Stage.sink file) reader c) trail fun result opened events =>
      opened = [c.assemblyPath]
        ∧ events = readingEvent c :: buildingEvents (.within c.namespaces.constraint?)
            (reader (RunLog.record file (readingEvent c) trail.sink.world).2.files
              c.assemblyPath).1
        ∧ ∀ output, result = .ok output → output = c.outputPath := by
  refine (ends_record file (readingEvent c) trail).bind (fun _ _ _ h => nomatch h.1) ?_
  rintro _ afterReading - - hreading ⟨-, rfl, rfl⟩
  have hworld : afterReading.sink.world
      = (RunLog.record file (readingEvent c) trail.sink.world).2 := by
    rw [← world_sink_record, ← congrArg (fun answer => answer.2.sink) hreading]
    rfl
  rw [← hworld]
  refine (ends_openAssembly reader c.assemblyPath afterReading).bind ?_ ?_
  · rintro fault - - ⟨hanswer, rfl, rfl⟩
    rw [← hanswer]
    exact ⟨rfl, rfl, fun _ h => nomatch h⟩
  rintro source afterOpening - - - ⟨hanswer, rfl, rfl⟩
  rw [← hanswer]
  refine (ends_build file _ source afterOpening).bind ?_ ?_
  · rintro fault - - ⟨rfl, rfl⟩
    exact ⟨rfl, rfl, fun _ h => nomatch h⟩
  rintro report afterBuilding - - - ⟨rfl, rfl⟩
  refine .behind (silent_writeDocument report c.outputPath) (fun fault _ => ?_)
    fun _ afterWriting _ => ?_
  · exact ⟨rfl, by simp [buildingEvents], fun _ h => nomatch h⟩
  · exact ends_of_after (after_pure _ afterWriting) (.refl _)
      ⟨rfl, by simp [buildingEvents], fun _ h => (Except.ok.inj h).symm⟩

theorem ends_exportReport (file : Option Location) (reader : Reader) (c : RunConfig) (log : Path)
    (trail : Trail Stage) :
    Ends (exportReport (Stage.sink file) reader c log) trail fun result opened events =>
      opened = [c.assemblyPath]
        ∧ events = readingEvent c :: buildingEvents (.within c.namespaces.constraint?)
            (reader (RunLog.record file (readingEvent c) trail.sink.world).2.files
              c.assemblyPath).1 ++ successEvents c log result
        ∧ ∀ outcome, result = .ok outcome → outcome = .exported c.outputPath log := by
  refine (ends_writeReport file reader c trail).bind ?_ ?_
  · rintro fault - - ⟨rfl, rfl, -⟩
    exact ⟨rfl, (List.append_nil _).symm, fun _ h => nomatch h⟩
  rintro output afterWriting - - - ⟨rfl, rfl, houtput⟩
  obtain rfl := houtput output rfl
  refine (ends_record file _ afterWriting).bind (fun _ _ _ h => nomatch h.1) ?_
  rintro - afterSuccess - - - ⟨-, rfl, rfl⟩
  refine (ends_record file _ afterSuccess).bind (fun _ _ _ h => nomatch h.1) ?_
  rintro - afterLast - - - ⟨-, rfl, rfl⟩
  exact ends_of_after (after_pure _ afterLast) (.refl _)
    ⟨rfl, rfl, fun _ h => (Except.ok.inj h).symm⟩

/-! ## Failures -/

/-- Whether the log takes the record of a failure or not, the failure is
handed back. -/
theorem after_failure {α : Type} (file : Option Location) (fatal : Fault) (trail : Trail Stage) :
    ∃ later, after (do
        tryCatch (record (Stage.sink file) ⟨.error, fatal.message⟩) fun refusal =>
          diagnose ["could not record failure in the run log: " ++ refusal.message]
        throw fatal : Recording Stage α) trail = (.error fatal, later)
      ∧ (trail.sink.Gains later.sink [] [⟨.error, fatal.message⟩]
        ∨ trail.sink.refused.length < later.sink.refused.length) := by
  have hafter : after (record (Stage.sink file) ⟨.error, fatal.message⟩) trail = _ :=
    after_record ⟨.error, fatal.message⟩ trail
  rcases Stage.sink_record file ⟨.error, fatal.message⟩ trail.sink with
    ⟨hanswer, hgains⟩ | ⟨⟨refusal, hanswer⟩, hgrown⟩
  · rw [hanswer] at hafter
    exact ⟨_, after_bind_of_ok (after_tryCatch_of_ok hafter), .inl hgains⟩
  · rw [hanswer] at hafter
    refine ⟨_, after_bind_of_ok ((after_tryCatch_of_error hafter).trans (after_diagnose _ _)), ?_⟩
    exact .inr hgrown

theorem ends_reportFailure {α : Type} {file : Option Location} {work : Recording Stage α}
    {trail : Trail Stage} {mid : Except Fault α → List Path → List Event → Prop}
    (h : Ends work trail mid) :
    Ends (reportFailure (Stage.sink file) work) trail fun result opened events =>
      ∃ first before, mid first opened before ∧ result = first.mapError Fault.toFatal
        ∧ events = before ++ failureEvents result := by
  rcases hwork : after work trail with ⟨fault | a, later⟩ <;> rw [Ends, IsRefused, hwork] at h
  · obtain ⟨last, hlast, hrecord⟩ := after_failure (α := α) file fault.toFatal later
    have hafter : after (reportFailure (Stage.sink file) work) trail
        = (.error fault.toFatal, last) :=
      (after_tryCatch_of_error hwork).trans hlast
    -- Had the work an event refused, the record of the failure does not undo that.
    have hle : later.sink.refused.length ≤ last.sink.refused.length := by
      rcases hrecord with hgains | hgrown
      · exact Nat.le_of_eq (congrArg List.length hgains.refused_eq.symm)
      · exact Nat.le_of_lt hgrown
    rcases h with ⟨-, hgrown⟩ | ⟨opened, events, hgains, hmid⟩
    · exact ends_of_refused hafter (Nat.lt_of_lt_of_le hgrown hle)
    rcases hrecord with hrecorded | hgrown
    · exact ends_of_after hafter (hgains.trans hrecorded)
        ⟨.error fault, events, by rwa [List.append_nil], rfl, rfl⟩
    · exact ends_of_refused hafter (hgains.refused_eq ▸ hgrown)
  · rcases h with ⟨⟨_, hfault⟩, -⟩ | ⟨opened, events, hgains, hmid⟩
    · cases hfault
    · exact ends_of_after (after_tryCatch_of_ok hwork) hgains
        ⟨_, _, hmid, rfl, (List.append_nil _).symm⟩

theorem isFatal_toFatal (fault : Fault) : fault.toFatal.isFatal = true := by
  cases fault <;> rfl

theorem isFatal_of_mapError {α : Type} {first result : Except Fault α}
    (h : result = first.mapError Fault.toFatal) :
    ∀ fault, result = .error fault → fault.isFatal = true := by
  rintro fault rfl
  cases first with
  | error first =>
      obtain rfl := Except.error.inj h
      exact isFatal_toFatal first
  | ok a => cases h

theorem successEvents_mapError (c : RunConfig) (log : Path) {α : Type} (first : Except Fault α) :
    successEvents c log (first.mapError Fault.toFatal) = successEvents c log first := by
  cases first <;> rfl

/-- A run that lists namespaces. -/
theorem ends_discovery (reader : Reader) (c : RunConfig) (trail : Trail Stage) :
    Ends (reportFailure (Stage.sink none) do
        return Outcome.namespaces (← listNamespaces reader c.assemblyPath)) trail
      fun result opened events =>
        opened = [c.assemblyPath] ∧ events = failureEvents result
          ∧ ∀ fault, result = .error fault → fault.isFatal = true := by
  have hlisting : Ends (do return Outcome.namespaces (← listNamespaces reader c.assemblyPath)) trail
      fun _ opened events => opened = [c.assemblyPath] ∧ events = [] := by
    refine (ends_listNamespaces reader c.assemblyPath trail).bind (fun _ _ _ h => h) ?_
    rintro names later - - - ⟨rfl, rfl⟩
    exact ends_of_after (after_pure _ later) (.refl _) ⟨rfl, rfl⟩
  refine (ends_reportFailure hlisting).mono ?_
  rintro result opened events ⟨first, before, ⟨rfl, rfl⟩, hresult, rfl⟩
  exact ⟨rfl, rfl, isFatal_of_mapError hresult⟩

/-- The events of a run that writes a report, from its log on. The
assembly is read when the log has its first line. -/
def reportEvents (reader : Reader) (c : RunConfig) (log : Path) (place : Location) (world : World)
    (result : Except Fault Outcome) : List Event :=
  let answer := (reader (RunLog.record (some place) (readingEvent c) world).2.files
    c.assemblyPath).1
  readingEvent c :: buildingEvents (.within c.namespaces.constraint?) answer
    ++ successEvents c log result ++ failureEvents result

/-- A run that writes a report, once it has a log. -/
theorem ends_report (place : Location) (reader : Reader) (c : RunConfig) (log : Path)
    (trail : Trail Stage) :
    Ends (reportFailure (Stage.sink (some place))
        (exportReport (Stage.sink (some place)) reader c log)) trail
      fun result opened events =>
        opened = [c.assemblyPath]
          ∧ events = reportEvents reader c log place trail.sink.world result
          ∧ (∀ fault, result = .error fault → fault.isFatal = true)
          ∧ ∀ outcome, result = .ok outcome → outcome = .exported c.outputPath log := by
  refine (ends_reportFailure (ends_exportReport (some place) reader c log trail)).mono ?_
  rintro result opened events ⟨first, before, ⟨rfl, rfl, houtcome⟩, hresult, rfl⟩
  refine ⟨rfl, ?_, isFatal_of_mapError hresult, ?_⟩
  · rw [reportEvents, ← successEvents_mapError c log first, ← hresult]
  · rintro outcome rfl
    cases first with
    | error fault => cases hresult
    | ok a => exact houtcome outcome hresult.symm

end Run

end SurfaceReport
