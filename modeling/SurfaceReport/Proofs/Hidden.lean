import Mathlib.Logic.Basic
import SurfaceReport.Proofs.Discovery
import SurfaceReport.Report.Xml

/-!
# Hidden declarations have no influence

A report shows only part of an assembly. What it does not show cannot be
found out from it either: two sources that differ in hidden declarations
only, in which ones there are, where they stand and what they contain,
lead every receiver of events to the same state and the same answer, and
list the same namespaces (`build_eq_of_withoutHidden_eq`).

What is hidden is said declaration by declaration, reason by reason
(`TypeDecl.Hidden`, `Field.Hidden`, `Method.Hidden`), and taken away by
`Module.withoutHidden`. That the rule agrees with the reasons is one lemma
each. Both sources are then compared with what is left of them: taking
hidden declarations away changes no node and no event
(`moduleTrees_withoutHidden`, `moduleEvents_withoutHidden`).

Only the diagnostics name what is skipped. So a run cannot be compared as
a whole; its steps are compared by the events among them
(`after_play_of_events_eq`), which holds of receivers that refuse events
too.
-/

namespace SurfaceReport

/-! ## What is hidden, and why -/

/-- Why a report under a constraint does not show a type. -/
inductive TypeDecl.Hidden (constraint : Option String) (t : TypeDecl) : Prop where
  | notPublic (h : t.visibility ≠ .isPublic)
  | pseudoType (h : t.name = "_Module_")
  | generated (h : ['<'] <+: t.name.toList)
  | elsewhere {ns : String} (hconstraint : constraint = some ns) (hns : ns ≠ "") (h : t.ns ≠ ns)

/-- Why no report shows a field. -/
inductive Field.Hidden (f : Field) : Prop where
  | notPublic (h : f.visibility ≠ .isPublic)
  | backing (h : "k__BackingField".toList <:+: f.name.toList)

/-- Why no report shows a method. -/
inductive Method.Hidden (m : Method) : Prop where
  | notPublic (h : m.visibility ≠ .isPublic)
  | accessor (h : m.accessor = .getter ∨ m.accessor = .setter)
  | constructor (h : m.accessor = .constructor)
  | generated (h : ['<'] <+: m.name.toList)
  | added (h : m.name = "get_Il2CppType")

theorem head?_eq_iff_prefix {c : Char} {text : List Char} :
    text.head? = some c ↔ [c] <+: text := by
  cases text with
  | nil => simp
  | cons d rest =>
      rw [List.head?_cons, Option.some.injEq, List.cons_prefix_cons]
      exact ⟨fun h => ⟨h.symm, List.nil_prefix⟩, fun h => h.1.symm⟩

theorem occursIn_iff_infix {part text : List Char} :
    occursIn part text = true ↔ part <:+: text := by
  induction text with
  | nil => rw [occursIn, List.isEmpty_iff, List.infix_nil]
  | cons c rest ih =>
      rw [occursIn, Bool.or_eq_true, List.isPrefixOf_iff_prefix, ih, List.infix_cons_iff]

namespace ExportRule

theorem admitsNamespace_within_iff {constraint : Option String} {ns : String} :
    (within constraint).admitsNamespace ns = true
      ↔ ∀ wanted, constraint = some wanted → wanted ≠ "" → ns = wanted := by
  rcases constraint with _ | wanted
  · simp [within, admitsNamespace]
  · by_cases hwanted : wanted = "" <;> simp [within, admitsNamespace, Option.filter, hwanted]

theorem exportsType_iff_not_hidden {constraint : Option String} {t : TypeDecl} :
    (within constraint).exportsType t = true ↔ ¬t.Hidden constraint := by
  have hgenerated : t.isGenerated = true ↔ ['<'] <+: t.name.toList := by
    rw [TypeDecl.isGenerated, beq_iff_eq, generatedMark, head?_eq_iff_prefix]
  simp only [exportsType, Bool.and_eq_true, beq_iff_eq, bne_iff_ne, Bool.not_eq_true',
    admitsNamespace_within_iff, modulePseudoType, ← Bool.not_eq_true, hgenerated]
  constructor
  · rintro ⟨⟨⟨hpublic, hname⟩, hdeclared⟩, hns⟩ hhidden
    rcases hhidden with h | h | h | ⟨hconstraint, hwanted, h⟩
    · exact h hpublic
    · exact hname h
    · exact hdeclared h
    · exact h (hns _ hconstraint hwanted)
  · intro hshown
    refine ⟨⟨⟨?_, fun h => hshown (.pseudoType h)⟩, fun h => hshown (.generated h)⟩, ?_⟩
    · exact Decidable.byContradiction fun h => hshown (.notPublic h)
    · intro wanted hconstraint hwanted
      exact Decidable.byContradiction fun h => hshown (.elsewhere hconstraint hwanted h)

theorem exportsField_iff_not_hidden {rule : ExportRule} {f : Field} :
    rule.exportsField f = true ↔ ¬f.Hidden := by
  have hbacking : f.isBacking = true ↔ "k__BackingField".toList <:+: f.name.toList :=
    occursIn_iff_infix
  simp only [exportsField, Bool.and_eq_true, beq_iff_eq, Bool.not_eq_true', ← Bool.not_eq_true,
    hbacking]
  constructor
  · rintro ⟨hpublic, hdeclared⟩ (h | h)
    · exact h hpublic
    · exact hdeclared h
  · intro hshown
    refine ⟨?_, fun h => hshown (.backing h)⟩
    exact Decidable.byContradiction fun h => hshown (.notPublic h)

theorem exportsMethod_iff_not_hidden {rule : ExportRule} {m : Method} :
    rule.exportsMethod m = true ↔ ¬m.Hidden := by
  have hgenerated : m.isGenerated = true ↔ ['<'] <+: m.name.toList := by
    rw [Method.isGenerated, beq_iff_eq, generatedMark, head?_eq_iff_prefix]
  simp only [exportsMethod, Bool.and_eq_true, beq_iff_eq, bne_iff_ne, Bool.not_eq_true',
    addedTypeAccessor, ← Bool.not_eq_true, hgenerated]
  constructor
  · rintro ⟨⟨⟨hpublic, hordinary⟩, hdeclared⟩, hname⟩ hhidden
    rcases hhidden with h | h | h | h | h
    · exact h hpublic
    · rw [hordinary] at h
      exact h.elim nofun nofun
    · rw [hordinary] at h
      cases h
    · exact hdeclared h
    · exact hname h
  · intro hshown
    refine ⟨⟨⟨?_, ?_⟩, fun h => hshown (.generated h)⟩, fun h => hshown (.added h)⟩
    · exact Decidable.byContradiction fun h => hshown (.notPublic h)
    · cases haccessor : m.accessor with
      | ordinary => rfl
      | getter => exact absurd (.accessor (.inl haccessor)) hshown
      | setter => exact absurd (.accessor (.inr haccessor)) hshown
      | constructor => exact absurd (.constructor haccessor) hshown

end ExportRule

instance (constraint : Option String) (t : TypeDecl) : Decidable (t.Hidden constraint) :=
  decidable_of_iff (¬(ExportRule.within constraint).exportsType t = true)
    (by rw [ExportRule.exportsType_iff_not_hidden, not_not])

instance (f : Field) : Decidable f.Hidden :=
  decidable_of_iff (¬({} : ExportRule).exportsField f = true)
    (by rw [ExportRule.exportsField_iff_not_hidden, not_not])

instance (m : Method) : Decidable m.Hidden :=
  decidable_of_iff (¬({} : ExportRule).exportsMethod m = true)
    (by rw [ExportRule.exportsMethod_iff_not_hidden, not_not])

/-! ## Without what is hidden -/

def TypeDecl.withoutHidden (t : TypeDecl) : TypeDecl :=
  { t with fields := t.fields.filter (¬·.Hidden), methods := t.methods.filter (¬·.Hidden) }

/-- The module without the types that a report under the constraint does
not show, and without the members that no report shows. -/
def Module.withoutHidden (constraint : Option String) (m : Module) : Module :=
  { m with types := (m.types.filter (¬·.Hidden constraint)).map TypeDecl.withoutHidden }

theorem TypeDecl.fullName_withoutHidden (t : TypeDecl) :
    t.withoutHidden.fullName = t.fullName := rfl

theorem ExportRule.exportsType_withoutHidden (rule : ExportRule) (t : TypeDecl) :
    rule.exportsType t.withoutHidden = rule.exportsType t := rfl

/-- The types that are left are the exported ones. -/
theorem Module.types_withoutHidden (constraint : Option String) (m : Module) :
    (m.withoutHidden constraint).types
      = (m.types.filter (ExportRule.within constraint).exportsType).map
          TypeDecl.withoutHidden := by
  show (m.types.filter _).map _ = _
  congr 1
  refine List.filter_congr fun t _ => ?_
  rw [Bool.eq_iff_iff, decide_eq_true_eq, ExportRule.exportsType_iff_not_hidden]

/-- The empty namespace is no constraint: nothing is hidden for it. -/
theorem Module.withoutHidden_of_empty {constraint : Option String} (h : constraint.getD "" = "") :
    Module.withoutHidden constraint = Module.withoutHidden none := by
  have hrule : ExportRule.within constraint = .within none := by
    rcases constraint with _ | ns
    · rfl
    · obtain rfl : ns = "" := h
      exact ExportRule.within_empty
  funext m
  have htypes : (m.withoutHidden constraint).types = (m.withoutHidden none).types := by
    rw [types_withoutHidden, types_withoutHidden, hrule]
  exact congrArg (Module.mk m.name) htypes

namespace Report

variable (rule : ExportRule)

theorem exportedFields_withoutHidden (t : TypeDecl) :
    exportedFields rule t.withoutHidden = exportedFields rule t := by
  show sortedBy _ ((t.fields.filter _).filter _) = sortedBy _ _
  rw [List.filter_filter]
  congr 1
  refine List.filter_congr fun f _ => ?_
  rw [Bool.eq_iff_iff, Bool.and_eq_true, decide_eq_true_eq, rule.exportsField_iff_not_hidden,
    and_self]

theorem exportedMethods_withoutHidden (t : TypeDecl) :
    exportedMethods rule t.withoutHidden = exportedMethods rule t := by
  show sortedBy _ ((t.methods.filter _).filter _) = sortedBy _ _
  rw [List.filter_filter]
  congr 1
  refine List.filter_congr fun m _ => ?_
  rw [Bool.eq_iff_iff, Bool.and_eq_true, decide_eq_true_eq, rule.exportsMethod_iff_not_hidden,
    and_self]

theorem typeTree_withoutHidden (t : TypeDecl) :
    typeTree rule t.withoutHidden = typeTree rule t := by
  rw [typeTree, typeTree, exportedFields_withoutHidden, exportedMethods_withoutHidden]
  rfl

theorem typeEvents_withoutHidden (t : TypeDecl) :
    typeEvents rule t.withoutHidden = typeEvents rule t := by
  rw [typeEvents, typeEvents, exportedFields_withoutHidden, exportedMethods_withoutHidden]
  rfl

/-- Types that lack their hidden members are sorted like the types themselves. -/
theorem exportedTypes_withoutHidden (constraint : Option String) (m : Module) :
    exportedTypes (.within constraint) (m.withoutHidden constraint)
      = (exportedTypes (.within constraint) m).map TypeDecl.withoutHidden := by
  have hkept : ((m.withoutHidden constraint).types).filter
      (ExportRule.within constraint).exportsType = (m.withoutHidden constraint).types := by
    rw [List.filter_eq_self, Module.types_withoutHidden]
    intro t ht
    obtain ⟨u, hu, rfl⟩ := List.mem_map.mp ht
    rw [ExportRule.exportsType_withoutHidden]
    exact (List.mem_filter.mp hu).2
  rw [exportedTypes, exportedTypes, hkept, Module.types_withoutHidden,
    map_sortedBy TypeDecl.fullName_withoutHidden]

theorem moduleTrees_withoutHidden (constraint : Option String) (m : Module) :
    moduleTrees (.within constraint) (m.withoutHidden constraint)
      = moduleTrees (.within constraint) m := by
  rw [moduleTrees, moduleTrees, exportedTypes_withoutHidden, List.map_map]
  exact List.map_congr_left fun t _ => typeTree_withoutHidden _ t

theorem moduleEvents_withoutHidden (constraint : Option String) (m : Module) :
    moduleEvents (.within constraint) (m.withoutHidden constraint)
      = moduleEvents (.within constraint) m := by
  have htypes : ((exportedTypes (.within constraint) m).map TypeDecl.withoutHidden).flatMap
      (typeEvents (.within constraint))
        = (exportedTypes (.within constraint) m).flatMap (typeEvents (.within constraint)) := by
    rw [List.flatMap_map]
    simp only [typeEvents_withoutHidden]
  rw [moduleEvents, moduleEvents, exportedTypes_withoutHidden, htypes]
  rfl

/-- What modules contribute one by one is told by what is left of them. -/
theorem flatMap_eq_of_withoutHidden_eq {α : Type} {constraint : Option String} {f : Module → List α}
    (hf : ∀ m, f (m.withoutHidden constraint) = f m) {modules modules' : List Module}
    (h : modules.map (Module.withoutHidden constraint)
      = modules'.map (Module.withoutHidden constraint)) :
    modules.flatMap f = modules'.flatMap f := by
  have hleft : ∀ modules : List Module,
      (modules.map (Module.withoutHidden constraint)).flatMap f = modules.flatMap f := by
    intro modules
    rw [List.flatMap_map]
    simp only [hf]
  rw [← hleft modules, h, hleft modules']

end Report

/-! ## Namespaces -/

theorem exportedNamespaces_eq (modules : List Module) :
    exportedNamespaces modules
      = distinct (Report.sortedBy id (modules.flatMap fun m =>
          (m.types.filter fun t => !t.ns.isEmpty && (ExportRule.within none).exportsType t).map
            TypeDecl.ns)) := by
  rw [exportedNamespaces, List.filter_flatMap, List.map_flatMap]
  rfl

theorem namespaces_withoutHidden (m : Module) :
    ((m.withoutHidden none).types.filter fun t =>
        !t.ns.isEmpty && (ExportRule.within none).exportsType t).map TypeDecl.ns
      = (m.types.filter fun t =>
        !t.ns.isEmpty && (ExportRule.within none).exportsType t).map TypeDecl.ns := by
  rw [Module.types_withoutHidden, List.filter_map, List.map_map, List.filter_filter]
  congr 1
  refine List.filter_congr fun t _ => ?_
  rw [Function.comp_apply, ExportRule.exportsType_withoutHidden, Bool.and_assoc, Bool.and_self]
  rfl

theorem exportedNamespaces_eq_of_withoutHidden_eq {modules modules' : List Module}
    (h : modules.map (Module.withoutHidden none) = modules'.map (Module.withoutHidden none)) :
    exportedNamespaces modules = exportedNamespaces modules' := by
  rw [exportedNamespaces_eq, exportedNamespaces_eq,
    Report.flatMap_eq_of_withoutHidden_eq namespaces_withoutHidden h]

/-! ## Runs that cannot be told apart -/

namespace Recording

variable {σ : Type} (sink : EventSink σ)

/-- What a receiver answers to some events, up to the first that it
refuses, and what it is then. -/
def answerTo : List Event → σ → Except Fault Unit × σ
  | [], s => (.ok (), s)
  | e :: rest, s =>
    match sink.record e s with
    | (.ok (), later) => answerTo rest later
    | (.error fault, later) => (.error fault, later)

theorem after_play_answers (steps : List Step) (trail : Trail σ) :
    ((after (play sink steps) trail).1, (after (play sink steps) trail).2.sink)
      = answerTo sink (steps.flatMap Step.events) trail.sink := by
  induction steps generalizing trail with
  | nil => rfl
  | cons step rest ih =>
      cases step with
      | record e =>
          have hevents : (Step.record e :: rest).flatMap Step.events
              = e :: rest.flatMap Step.events := rfl
          rw [play, after_bind, after_record, hevents, answerTo]
          rcases sink.record e trail.sink with ⟨fault | taken, later⟩
          · rfl
          · exact ih { trail with sink := later }
      | diagnose lines =>
          rw [play, after_bind_of_ok (after_diagnose lines trail), ih]
          rfl

/-- Steps with the same events are the same to a receiver. -/
theorem after_play_of_events_eq {steps steps' : List Step}
    (h : steps.flatMap Step.events = steps'.flatMap Step.events) {trail trail' : Trail σ}
    (hsink : trail.sink = trail'.sink) :
    (after (play sink steps) trail).1 = (after (play sink steps') trail').1
      ∧ (after (play sink steps) trail).2.sink = (after (play sink steps') trail').2.sink := by
  have hanswers := after_play_answers sink steps trail
  rw [h, hsink, ← after_play_answers sink steps' trail'] at hanswers
  exact Prod.mk.inj hanswers

end Recording

namespace Report

open Recording

variable {source source' : Source} {name : String} {modules modules' : List Module}
  {rule : ExportRule}

/-- Sources with the same report and the same events are the same to a
receiver, whether it refuses an event or not. -/
theorem runFrom_build_eq (hsource : source.Offers name modules)
    (hsource' : source'.Offers name modules')
    (htree : tree rule name modules = tree rule name modules')
    (hevents : modules.flatMap (moduleEvents rule) = modules'.flatMap (moduleEvents rule))
    {σ : Type} (sink : EventSink σ) (s : σ) :
    ((build sink rule source).runFrom s).1 = ((build sink rule source').runFrom s).1
      ∧ ((build sink rule source).runFrom s).2.sink
        = ((build sink rule source').runFrom s).2.sink := by
  have hscripts : (script rule modules).flatMap Step.events
      = (script rule modules').flatMap Step.events := by
    rw [events_script, events_script, hevents]
  have hsink : (Trail.mk s source.readingNotes).sink = (Trail.mk s source'.readingNotes).sink := rfl
  obtain ⟨hanswer, hstate⟩ := after_play_of_events_eq sink hscripts hsink
  rw [runFrom_build hsource, runFrom_build hsource', after_bind, after_bind, htree]
  generalize after (play sink (script rule modules)) ⟨s, source.readingNotes⟩ = played at *
  generalize after (play sink (script rule modules')) ⟨s, source'.readingNotes⟩ = played' at *
  obtain ⟨answer, later⟩ := played
  obtain ⟨answer', later'⟩ := played'
  obtain rfl : answer = answer' := hanswer
  cases answer with
  | error fault => exact ⟨rfl, hstate⟩
  | ok => exact ⟨rfl, hstate⟩

/-- **Hidden declarations have no influence.** Take two sources that can
be read, and a constraint. If their modules are the same once everything
is taken away that is hidden under the constraint, then no receiver is
led to another answer or another state by the one than by the other; a
receiver that accepts all events gets the same trace, the reports are the
same and so are their documents. If nothing is hidden for its namespace,
the same namespaces are listed. -/
theorem build_eq_of_withoutHidden_eq (hsource : source.Offers name modules)
    (hsource' : source'.Offers name modules') (constraint : Option String)
    (hshown : modules.map (Module.withoutHidden constraint)
      = modules'.map (Module.withoutHidden constraint)) :
    (∀ {σ : Type} (sink : EventSink σ) (s : σ),
      ((build sink (.within constraint) source).runFrom s).1
          = ((build sink (.within constraint) source').runFrom s).1
        ∧ ((build sink (.within constraint) source).runFrom s).2.sink
          = ((build sink (.within constraint) source').runFrom s).2.sink)
      ∧ (∃ root root' events events', LeadsTo source constraint root events
        ∧ LeadsTo source' constraint root' events'
        ∧ root = root' ∧ events = events' ∧ Xml.bytes root = Xml.bytes root')
      ∧ (constraint.getD "" = "" → ∀ {σ : Type} (s : σ), ∃ listed,
        ((discoverNamespaces source).runFrom s).1 = .ok listed
          ∧ ((discoverNamespaces source').runFrom s).1 = .ok listed) := by
  have htypes := flatMap_eq_of_withoutHidden_eq (moduleTrees_withoutHidden constraint) hshown
  have hevents := flatMap_eq_of_withoutHidden_eq (moduleEvents_withoutHidden constraint) hshown
  have htree : tree (.within constraint) name modules
      = tree (.within constraint) name modules' := by
    rw [tree, tree, htypes]
  refine ⟨runFrom_build_eq hsource hsource' htree hevents, ?_, ?_⟩
  · refine ⟨_, _, _, _, leadsTo_tree hsource constraint, leadsTo_tree hsource' constraint,
      htree, ?_, congrArg Xml.bytes htree⟩
    rw [traceOf_moduleTrees, traceOf_moduleTrees, hevents]
  · intro hconstraint σ s
    rw [Module.withoutHidden_of_empty hconstraint] at hshown
    refine ⟨_, discoverNamespaces_of_offers hsource s, ?_⟩
    rw [discoverNamespaces_of_offers hsource' s, exportedNamespaces_eq_of_withoutHidden_eq hshown]

/-- The modules of an assembly with hidden declarations of all kinds. -/
def modulesWithSecrets : List Module :=
  [⟨"Game.dll",
    [{ ns := "", name := "<Module>" },
      { ns := "Game", name := "Player",
        fields := [⟨"<Score>k__BackingField", "System.Int32", .isPublic⟩,
          ⟨"Score", "System.Int32", .isPublic⟩, ⟨"seed", "System.Int64", .isPrivate⟩],
        methods := [⟨".ctor", "System.Void", .isPublic, .constructor, []⟩,
          ⟨"get_Score", "System.Int32", .isPublic, .getter, []⟩,
          ⟨"Move", "System.Void", .isPublic, .ordinary, []⟩,
          ⟨"get_Il2CppType", "System.Type", .isPublic, .ordinary, []⟩] },
      { ns := "Game.Cheats", name := "Console", visibility := .isInternal,
        fields := [⟨"Score", "System.Int32", .isPublic⟩] },
      { ns := "", name := "_Module_" }]⟩]

/-- The modules of an assembly that declares the same things openly, and
one more type in secret. -/
def modulesWithOtherSecrets : List Module :=
  [⟨"Game.dll",
    [{ ns := "Game", name := "<Cache>" },
      { ns := "Game", name := "Player",
        fields := [⟨"Score", "System.Int32", .isPublic⟩],
        methods := [⟨"<Start>b__0", "System.Void", .isPublic, .ordinary, []⟩,
          ⟨"Move", "System.Void", .isPublic, .ordinary, []⟩] }]⟩]

theorem modulesWithSecrets_withoutHidden :
    modulesWithSecrets.map (Module.withoutHidden none)
      = modulesWithOtherSecrets.map (Module.withoutHidden none) := by
  decide +kernel

theorem build_eq_with_other_secrets :
    (Source.ofModules "Game" modulesWithSecrets).Offers "Game" modulesWithSecrets
      ∧ (Source.ofModules "Game" modulesWithOtherSecrets).Offers "Game" modulesWithOtherSecrets
      ∧ modulesWithSecrets ≠ modulesWithOtherSecrets
      ∧ modulesWithSecrets.map (Module.withoutHidden none)
        = modulesWithOtherSecrets.map (Module.withoutHidden none)
      ∧ ∃ root events, LeadsTo (.ofModules "Game" modulesWithSecrets) none root events
        ∧ LeadsTo (.ofModules "Game" modulesWithOtherSecrets) none root events
        ∧ ∃ listed, ((discoverNamespaces (.ofModules "Game" modulesWithSecrets)).runFrom ()).1
            = .ok listed
          ∧ ((discoverNamespaces (.ofModules "Game" modulesWithOtherSecrets)).runFrom ()).1
            = .ok listed := by
  have hoffers : (Source.ofModules "Game" modulesWithSecrets).Offers "Game"
      modulesWithSecrets := ⟨rfl, rfl⟩
  have hoffers' : (Source.ofModules "Game" modulesWithOtherSecrets).Offers "Game"
      modulesWithOtherSecrets := ⟨rfl, rfl⟩
  obtain ⟨-, ⟨root, root', events, events', hbuilt, hbuilt', hroot, hevents, -⟩, hlisted⟩ :=
    build_eq_of_withoutHidden_eq hoffers hoffers' none modulesWithSecrets_withoutHidden
  subst hroot hevents
  exact ⟨hoffers, hoffers', by decide +kernel, modulesWithSecrets_withoutHidden, root, events,
    hbuilt, hbuilt', hlisted rfl ()⟩

end Report

end SurfaceReport
