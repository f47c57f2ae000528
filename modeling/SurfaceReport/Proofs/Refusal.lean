import SurfaceReport.Proofs.Walk

/-!
# Refused events

A receiver may refuse an event, and the walk ends there: the refusal is
handed back, and nothing more is recorded. So a run into a receiver that
fails is the beginning of the run into one that does not
(`build_stops_at_refusal`).

The refused event can be that of any module, type, field or method. None
of the loops is looked at for that: the walk is a script (`build_eq`),
and the law of a script that is played up to some record
(`after_play_refused`) is one induction over its steps. What the law
leaves to be said of reports is which diagnostics the script leaves
before a record (`notesBefore_script`): a module leaves its own right
behind its announcement, ahead of the walk through its types.
-/

namespace SurfaceReport

/-! ## Receivers that refuse an event -/

namespace EventSink

variable {σ : Type} {sink : EventSink σ} {refusal : Fault}

/-- Handed these events one after the other, the receiver takes the first
`count` of them and refuses the next, if there are that many. What it
would do after its refusal is left open. -/
def RefusesAt (sink : EventSink σ) (refusal : Fault) : Nat → List Event → σ → Prop
  | _, [], _ => True
  | 0, e :: _, s => (sink.record e s).1 = .error refusal
  | count + 1, e :: rest, s =>
    (sink.record e s).1 = .ok () ∧ RefusesAt sink refusal count rest (sink.record e s).2

theorem memoryUpTo_takes {count : Nat} {kept : List Event} (e : Event)
    (h : kept.length < count) :
    (memoryUpTo count refusal).record e kept = (.ok (), kept ++ [e]) := by
  simp [memoryUpTo, h]

theorem memoryUpTo_refuses {count : Nat} {kept : List Event} (e : Event)
    (h : ¬kept.length < count) :
    (memoryUpTo count refusal).record e kept = (.error refusal, kept) := by
  simp [memoryUpTo, h]

/-- A list that has room for `free` events more refuses the one after them. -/
theorem memoryUpTo_refusesAt (refusal : Fault) {count : Nat} :
    ∀ (free : Nat) (events kept : List Event),
    kept.length + free = count → (memoryUpTo count refusal).RefusesAt refusal free events kept
  | free, [], kept, _ => by simp [RefusesAt]
  | 0, e :: rest, kept, hroom => by
      rw [RefusesAt, memoryUpTo_refuses e (by omega)]
  | free + 1, e :: rest, kept, hroom => by
      rw [RefusesAt, memoryUpTo_takes e (by omega)]
      refine ⟨rfl, memoryUpTo_refusesAt refusal free rest (kept ++ [e]) ?_⟩
      rw [List.length_append, List.length_singleton]
      omega

theorem feed_memory (events kept : List Event) : memory.feed events kept = kept ++ events := by
  induction events generalizing kept with
  | nil => simp [feed]
  | cons e rest ih =>
      have hnext : (memory.record e kept).2 = kept ++ [e] := rfl
      rw [feed, hnext, ih, List.append_assoc]
      rfl

/-- Handed more events than it has room for, a list keeps those that fit. -/
theorem feed_memoryUpTo {count : Nat} : ∀ (free : Nat) (events kept : List Event),
    kept.length + free = count →
    (memoryUpTo count refusal).feed events kept = kept ++ events.take free
  | _, [], kept, _ => by simp [feed]
  | 0, e :: rest, kept, hroom => by
      rw [feed, memoryUpTo_refuses e (by omega), feed_memoryUpTo 0 rest kept hroom,
        List.take_zero, List.take_zero]
  | free + 1, e :: rest, kept, hroom => by
      have hroom' : (kept ++ [e]).length + free = count := by
        rw [List.length_append, List.length_singleton]
        omega
      rw [feed, memoryUpTo_takes e (by omega), feed_memoryUpTo free rest _ hroom',
        List.take_succ_cons, List.append_assoc]
      rfl

end EventSink

/-! ## Scripts that are played up to a record -/

namespace Recording

variable {σ α β : Type} {sink : EventSink σ} {refusal : Fault}

theorem after_bind_of_error {work : Recording σ α} {next : α → Recording σ β}
    {trail later : Trail σ} {fault : Fault} (h : after work trail = (.error fault, later)) :
    after (work >>= next) trail = (.error fault, later) := by
  rw [after_bind, h]

/-- The diagnostics that the steps leave before they come to the record
with a number. -/
def notesBefore : Nat → List Step → List String
  | _, [] => []
  | n, .diagnose lines :: rest => lines ++ notesBefore n rest
  | 0, .record _ :: _ => []
  | n + 1, .record _ :: rest => notesBefore n rest

/-- A script is played up to the first refusal. The receiver is handed
the refused event and none after it. -/
theorem after_play_refused (steps : List Step) (n : Nat) (trail : Trail σ)
    (h : sink.RefusesAt refusal n (steps.flatMap Step.events) trail.sink) :
    after (play sink steps) trail
      = (if n < (steps.flatMap Step.events).length then .error refusal else .ok (),
          ⟨sink.feed ((steps.flatMap Step.events).take (n + 1)) trail.sink,
            trail.diagnostics ++ notesBefore n steps⟩) := by
  induction steps generalizing n trail with
  | nil => simp [play, EventSink.feed, notesBefore]
  | cons step rest ih =>
      cases step with
      | record e =>
          have hevents : (Step.record e :: rest).flatMap Step.events
              = e :: rest.flatMap Step.events := rfl
          rw [hevents] at h ⊢
          cases n with
          | zero =>
              have hrefused : after (record sink e) trail
                  = (.error refusal, { trail with sink := (sink.record e trail.sink).2 }) := by
                rw [after_record, show (sink.record e trail.sink).1 = .error refusal from h]
              rw [play, after_bind_of_error hrefused]
              simp [EventSink.feed, notesBefore]
          | succ n =>
              obtain ⟨htaken, hlater⟩ := h
              have hrecorded : after (record sink e) trail
                  = (.ok (), { trail with sink := (sink.record e trail.sink).2 }) := by
                rw [after_record, htaken]
              rw [play, after_bind_of_ok hrecorded, ih n ⟨_, _⟩ hlater]
              simp [EventSink.feed, notesBefore]
      | diagnose lines =>
          have hevents : (Step.diagnose lines :: rest).flatMap Step.events
              = rest.flatMap Step.events := rfl
          rw [hevents] at h ⊢
          have hrest := ih n ⟨trail.sink, trail.diagnostics ++ lines⟩ h
          rw [play, after_bind_of_ok (after_diagnose lines trail), hrest, notesBefore,
            List.append_assoc]

theorem notesBefore_records (n : Nat) (events : List Event) (rest : List Step) :
    notesBefore n (events.map .record ++ rest)
      = if events.length ≤ n then notesBefore (n - events.length) rest else [] := by
  induction events generalizing n with
  | nil => simp
  | cons e events ih =>
      cases n with
      | zero => simp [notesBefore]
      | succ n => simp [notesBefore, ih]

end Recording

/-! ## Reports up to a refusal -/

namespace Report

open Recording

variable (rule : ExportRule)

/-- The number of the record that announces the module at a place. -/
def announcement (modules : List Module) (place : Nat) : Nat :=
  ((modules.take place).flatMap (moduleEvents rule)).length

theorem getElem?_announcement {modules : List Module} {place : Nat} {m : Module}
    (h : modules[place]? = some m) :
    (modules.flatMap (moduleEvents rule))[announcement rule modules place]?
      = some (moduleEvent m) := by
  obtain ⟨hplace, rfl⟩ := List.getElem?_eq_some_iff.mp h
  have hsplit : modules.flatMap (moduleEvents rule)
      = (modules.take place).flatMap (moduleEvents rule)
        ++ (moduleEvents rule modules[place]
          ++ (modules.drop (place + 1)).flatMap (moduleEvents rule)) := by
    rw [← List.flatMap_cons, ← List.drop_eq_getElem_cons hplace, ← List.flatMap_append,
      List.take_append_drop]
  rw [hsplit, announcement, List.getElem?_append_right (Nat.le_refl _), Nat.sub_self]
  rfl

theorem announcement_cons (m : Module) (modules : List Module) (place : Nat) :
    announcement rule (m :: modules) (place + 1)
      = (moduleEvents rule m).length + announcement rule modules place := by
  simp [announcement]

theorem length_moduleEvents_pos (m : Module) : 0 < (moduleEvents rule m).length :=
  Nat.succ_pos _

theorem notesBefore_moduleScript (n : Nat) (m : Module) (rest : List Step) :
    notesBefore n (moduleScript rule m ++ rest)
      = if n = 0 then [] else
          skippedTypes rule m ++ if (moduleEvents rule m).length ≤ n then
            notesBefore (n - (moduleEvents rule m).length) rest else [] := by
  cases n with
  | zero => rfl
  | succ n =>
      have hsteps : notesBefore (n + 1) (moduleScript rule m ++ rest)
          = skippedTypes rule m
            ++ notesBefore n (((exportedTypes rule m).flatMap (typeEvents rule)).map .record
              ++ rest) := rfl
      rw [hsteps, notesBefore_records, if_neg (Nat.succ_ne_zero n)]
      simp only [moduleEvents, List.length_cons, Nat.add_le_add_iff_right, Nat.add_sub_add_right]

/-- Before a record, the diagnostics left are those of the modules that
are announced before it. -/
theorem notesBefore_script (modules : List Module) (n : Nat) :
    ∃ announced, notesBefore n (script rule modules)
        = (modules.take announced).flatMap (skippedTypes rule)
      ∧ ∀ place < modules.length,
          place < announced ↔ announcement rule modules place < n := by
  induction modules generalizing n with
  | nil => exact ⟨0, by simp [script, notesBefore], fun _ h => absurd h (Nat.not_lt_zero _)⟩
  | cons m modules ih =>
      have hpos := length_moduleEvents_pos rule m
      have hfirst : announcement rule (m :: modules) 0 = 0 := rfl
      obtain ⟨announced, hnotes, hplaces⟩ := ih (n - (moduleEvents rule m).length)
      have hscript : notesBefore n (script rule (m :: modules)) = _ :=
        notesBefore_moduleScript rule n m (script rule modules)
      rw [hscript]
      -- The record comes with this module's announcement, among its events, or behind them.
      by_cases hzero : n = 0
      · refine ⟨0, by simp [hzero], fun place _ => ?_⟩
        omega
      · rw [if_neg hzero]
        by_cases hbehind : (moduleEvents rule m).length ≤ n
        · refine ⟨announced + 1, by simp [hbehind, hnotes], fun place hplace => ?_⟩
          cases place with
          | zero => omega
          | succ place =>
              have hinner := hplaces place (Nat.lt_of_succ_lt_succ hplace)
              rw [announcement_cons]
              omega
        · refine ⟨1, by simp [hbehind], fun place hplace => ?_⟩
          cases place with
          | zero => omega
          | succ place =>
              rw [announcement_cons]
              omega

/-- The events of the walk whose receiver refuses none. -/
def acceptedEvents (source : Source) : List Event :=
  ((build .memory rule source).runFrom []).2.sink

theorem acceptedEvents_of_offers {source : Source} {name : String} {modules : List Module}
    (hsource : source.Offers name modules) :
    acceptedEvents rule source = modules.flatMap (moduleEvents rule) := by
  rw [acceptedEvents, build_accepted hsource EventSink.memory_acceptsAll, EventSink.feed_memory,
    List.nil_append]

section Unreadable

variable {rule : ExportRule} {source : Source} {fault : Fault} {σ : Type}

theorem build_of_nameless (hname : source.assemblyName = .error fault) (sink : EventSink σ)
    (s : σ) : (build sink rule source).runFrom s = (.error fault, ⟨s, []⟩) := by
  have hread : after (Recording.ofExcept source.assemblyName) (⟨s, []⟩ : Trail σ)
      = (.error fault, ⟨s, []⟩) := by
    rw [after_ofExcept, hname]
  rw [runFrom_eq, build_eq, after_bind_of_error hread]

theorem build_of_unreadable_modules {name : String} (hname : source.assemblyName = .ok name)
    (hmodules : source.modules = .error fault) (sink : EventSink σ) (s : σ) :
    (build sink rule source).runFrom s = (.error fault, ⟨s, source.readingNotes⟩) := by
  have hread : after (Recording.ofExcept source.assemblyName) (⟨s, []⟩ : Trail σ)
      = (.ok name, ⟨s, []⟩) := by
    rw [after_ofExcept, hname]
  have hreadModules : after source.read (⟨s, []⟩ : Trail σ)
      = (.error fault, ⟨s, source.readingNotes⟩) := by
    rw [Source.read, after_bind_of_ok (after_diagnose _ _), after_ofExcept, hmodules,
      List.nil_append]
  rw [runFrom_eq, build_eq, after_bind_of_ok hread, after_bind_of_error hreadModules]

end Unreadable

/-- How the walk ends whose receiver refuses record `n`, said beside the
walk whose receiver refuses none. -/
structure StopsAt {σ : Type} (sink : EventSink σ) (source : Source) (s : σ) (n : Nat)
    (refusal : Fault) : Prop where
  /-- If the walk comes to this record, the refusal is what it ends with. -/
  refused : n < (acceptedEvents rule source).length →
    ((build sink rule source).runFrom s).1 = .error refusal
  /-- If it does not, it ends as if nothing could be refused. -/
  untouched : (acceptedEvents rule source).length ≤ n →
    ((build sink rule source).runFrom s).1 = ((build .memory rule source).runFrom []).1
  /-- The receiver is handed the same events up to this record, and none behind it. -/
  handed : ((build sink rule source).runFrom s).2.sink
    = sink.feed ((acceptedEvents rule source).take (n + 1)) s
  /-- Diagnosed are all rejected types, in their order, of the modules
  whose announcement is recorded, which are the first so many of them. -/
  diagnosed : ∀ name modules, source.Offers name modules → ∃ announced,
    ((build sink rule source).runFrom s).2.diagnostics
        = source.readingNotes ++ (modules.take announced).flatMap (fun m =>
            (m.types.filter fun t => !rule.exportsType t).map fun t =>
              "skipping type " ++ t.fullName)
      ∧ ∀ place m, modules[place]? = some m →
        (acceptedEvents rule source)[announcement rule modules place]?
            = some (.info ("Processing module: " ++ m.name))
          ∧ (place < announced ↔ announcement rule modules place < n)

variable {rule : ExportRule} {σ : Type} {sink : EventSink σ} {source : Source} {s : σ} {n : Nat}
  {refusal : Fault}

theorem build_refused {name : String} {modules : List Module}
    (hsource : source.Offers name modules)
    (h : sink.RefusesAt refusal n (modules.flatMap (moduleEvents rule)) s) :
    (build sink rule source).runFrom s
      = (if n < (modules.flatMap (moduleEvents rule)).length then .error refusal
          else .ok (tree rule name modules),
          ⟨sink.feed ((modules.flatMap (moduleEvents rule)).take (n + 1)) s,
            source.readingNotes ++ notesBefore n (script rule modules)⟩) := by
  have hplay := after_play_refused (script rule modules) n
    ⟨s, source.readingNotes⟩ (by rw [events_script]; exact h)
  rw [events_script] at hplay
  rw [runFrom_build hsource]
  by_cases hn : n < (modules.flatMap (moduleEvents rule)).length
  · rw [if_pos hn] at hplay ⊢
    exact after_bind_of_error hplay
  · rw [if_neg hn] at hplay ⊢
    rw [after_bind_of_ok hplay, after_pure]

theorem stopsAt_of_offers {name : String} {modules : List Module}
    (hsource : source.Offers name modules)
    (h : sink.RefusesAt refusal n (acceptedEvents rule source) s) :
    StopsAt rule sink source s n refusal := by
  have hevents := acceptedEvents_of_offers rule hsource
  rw [hevents] at h
  have hrun := build_refused hsource h
  constructor
  case refused =>
      intro hn
      rw [hevents] at hn
      rw [hrun, if_pos hn]
  case untouched =>
      intro hn
      rw [hevents] at hn
      rw [hrun, if_neg (Nat.not_lt.mpr hn), build_accepted hsource EventSink.memory_acceptsAll]
  case handed => rw [hrun, hevents]
  case diagnosed =>
      intro name' modules' hsource'
      obtain rfl : modules = modules' :=
        Except.ok.inj (hsource.modules_eq.symm.trans hsource'.modules_eq)
      obtain ⟨announced, hnotes, hplaces⟩ := notesBefore_script rule modules n
      refine ⟨announced, ?_, fun place m hm => ⟨?_, ?_⟩⟩
      · rw [hrun, hnotes]
        rfl
      · rw [hevents, getElem?_announcement rule hm]
        rfl
      · exact hplaces place (List.getElem?_eq_some_iff.mp hm).1

/-- A source that cannot be read ends every walk in the same way, before
anything is recorded. -/
theorem stopsAt_of_unreadable {fault : Fault} {notes : List String}
    (hsource : ∀ name modules, ¬source.Offers name modules)
    (h : ∀ {τ : Type} (sink : EventSink τ) (t : τ),
      (build sink rule source).runFrom t = (.error fault, ⟨t, notes⟩)) :
    StopsAt rule sink source s n refusal := by
  have hevents : acceptedEvents rule source = [] := by rw [acceptedEvents, h]
  constructor
  case refused =>
      intro hn
      rw [hevents] at hn
      exact absurd hn (Nat.not_lt_zero _)
  case untouched => intro _; rw [h, h]
  case handed => rw [h, hevents]; rfl
  case diagnosed => exact fun name modules hoffers => absurd hoffers (hsource name modules)

/-- **A refusal ends the walk.** Whichever record is refused, the walk
ends with the refusal, having recorded what comes before it, and a source
that cannot be read ends it before anything is recorded or diagnosed:
first the name is asked for, then the modules. -/
theorem build_stops_at_refusal (source : Source) (constraint : Option String) :
    (∀ {σ : Type} (sink : EventSink σ) (s : σ) (n : Nat) (refusal : Fault),
        sink.RefusesAt refusal n (acceptedEvents (.within constraint) source) s →
        StopsAt (.within constraint) sink source s n refusal)
      ∧ (∀ n refusal,
        ((build (.memoryUpTo n refusal) (.within constraint) source).runFrom []).2.sink
          = (acceptedEvents (.within constraint) source).take n)
      ∧ (∀ {σ : Type} (sink : EventSink σ) (s : σ) fault, source.assemblyName = .error fault →
        (build sink (.within constraint) source).runFrom s = (.error fault, ⟨s, []⟩))
      ∧ ∀ {σ : Type} (sink : EventSink σ) (s : σ) name fault, source.assemblyName = .ok name →
        source.modules = .error fault → (build sink (.within constraint) source).runFrom s
          = (.error fault, ⟨s, source.readingNotes⟩) := by
  have hstops : ∀ {σ : Type} (sink : EventSink σ) (s : σ) (n : Nat) (refusal : Fault),
      sink.RefusesAt refusal n (acceptedEvents (.within constraint) source) s →
      StopsAt (.within constraint) sink source s n refusal := by
    intro σ sink s n refusal h
    cases hname : source.assemblyName with
    | error fault =>
        refine stopsAt_of_unreadable (fun name modules hoffers => ?_) (build_of_nameless hname)
        rw [hoffers.assemblyName_eq] at hname
        cases hname
    | ok name =>
        cases hmodules : source.modules with
        | error fault =>
            refine stopsAt_of_unreadable (fun name modules hoffers => ?_)
              (build_of_unreadable_modules hname hmodules)
            rw [hoffers.modules_eq] at hmodules
            cases hmodules
        | ok modules => exact stopsAt_of_offers ⟨hname, hmodules⟩ h
  refine ⟨hstops, ?_, fun sink s fault hname => build_of_nameless hname sink s,
    fun sink s name fault hname hmodules => build_of_unreadable_modules hname hmodules sink s⟩
  intro n refusal
  have hlist := hstops (.memoryUpTo n refusal) [] n refusal
    (EventSink.memoryUpTo_refusesAt refusal n _ [] (Nat.zero_add n))
  rw [hlist.handed, EventSink.feed_memoryUpTo n _ [] (Nat.zero_add n), List.nil_append,
    List.take_take, Nat.min_eq_left (Nat.le_succ n)]

/-- What the walk that is narrowed to one namespace records of the first module. -/
theorem acceptedEvents_of_meeting_names :
    acceptedEvents (.within (some "A")) (.ofModules "Game" modulesWithMeetingNames)
      = [.info "Processing module: Second.netmodule", .info "Processing type: A.B.C"]
        ++ moduleEvents (.within (some "A")) modulesWithMeetingNames[1] := by
  have hkept : modulesWithMeetingNames[0].types.filter (ExportRule.within (some "A")).exportsType
      = [{ ns := "A", name := "B.C" }] := by decide +kernel
  have hexported : exportedTypes (.within (some "A")) modulesWithMeetingNames[0]
      = [{ ns := "A", name := "B.C" }] := by
    rw [exportedTypes, hkept]
    exact List.mergeSort_singleton _
  have hmodule : moduleEvents (.within (some "A")) modulesWithMeetingNames[0]
      = [.info "Processing module: Second.netmodule", .info "Processing type: A.B.C"] := by
    rw [moduleEvents, hexported]
    decide +kernel
  have hevents : acceptedEvents (.within (some "A")) (.ofModules "Game" modulesWithMeetingNames)
      = moduleEvents (.within (some "A")) modulesWithMeetingNames[0]
        ++ (moduleEvents (.within (some "A")) modulesWithMeetingNames[1] ++ []) :=
    acceptedEvents_of_offers _ offers_meeting_names
  rw [hevents, hmodule, List.append_nil]

/-- The first type of the first module is refused. By then both rejected
types of this module are diagnosed, and the one of the second module is
not. -/
theorem build_stops_at_first_type_of_meeting_names :
    let rule := ExportRule.within (some "A")
    let source := Source.ofModules "Game" modulesWithMeetingNames
    let sink := EventSink.memoryUpTo 1 (.io .noSpace)
    let ending := (build sink rule source).runFrom []
    sink.RefusesAt (.io .noSpace) 1 (acceptedEvents rule source) []
      ∧ StopsAt rule sink source [] 1 (.io .noSpace)
      ∧ (acceptedEvents rule source)[1]? = some (.info "Processing type: A.B.C")
      ∧ ending.1 = .error (.io .noSpace)
      ∧ ending.2.sink = [.info "Processing module: Second.netmodule"]
      ∧ ending.2.diagnostics = ["skipping type A.B.C", "skipping type <Module>"]
      ∧ (build .memory rule ⟨.error .invalidFormat, .error (.unexpected ""), []⟩).runFrom []
          = (.error .invalidFormat, ⟨[], []⟩)
      ∧ (build .memory rule ⟨.ok "Game", .error (.io .noEntry), []⟩).runFrom []
          = (.error (.io .noEntry), ⟨[], []⟩) := by
  intro rule source sink ending
  have hevents : acceptedEvents rule source = _ := acceptedEvents_of_meeting_names
  have hrefuses : sink.RefusesAt (.io .noSpace) 1 (acceptedEvents rule source) [] :=
    EventSink.memoryUpTo_refusesAt (.io .noSpace) 1 _ [] rfl
  obtain ⟨hstops, hkept, -, -⟩ := build_stops_at_refusal source (some "A")
  obtain ⟨-, -, hnameless, -⟩ :=
    build_stops_at_refusal ⟨.error .invalidFormat, .error (.unexpected ""), []⟩ (some "A")
  obtain ⟨-, -, -, hunreadable⟩ :=
    build_stops_at_refusal ⟨.ok "Game", .error (.io .noEntry), []⟩ (some "A")
  have hstopped : StopsAt rule sink source [] 1 (.io .noSpace) := hstops _ _ _ _ hrefuses
  have htype : (acceptedEvents rule source)[1]? = some (.info "Processing type: A.B.C") := by
    rw [hevents]
    rfl
  obtain ⟨announced, hdiagnosed, hplaces⟩ :=
    hstopped.diagnosed "Game" modulesWithMeetingNames offers_meeting_names
  have hannounced : announced = 1 := by
    have hsecond : announcement rule modulesWithMeetingNames 1
        = (moduleEvents rule modulesWithMeetingNames[0]).length + 0 := announcement_cons rule _ _ 0
    have hpos := length_moduleEvents_pos rule modulesWithMeetingNames[0]
    have hbefore := (hplaces 0 _ rfl).2.mpr (Nat.zero_lt_succ 0)
    have hbehind := (hplaces 1 _ rfl).2
    omega
  refine ⟨hrefuses, hstopped, htype, hstopped.refused (List.getElem?_eq_some_iff.mp htype).1, ?_, ?_,
    hnameless _ _ _ rfl, hunreadable _ _ _ _ rfl rfl⟩
  · rw [hkept, hevents]
    rfl
  · rw [hdiagnosed, hannounced]
    decide +kernel

end Report

end SurfaceReport
