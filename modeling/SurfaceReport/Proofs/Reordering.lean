import Mathlib.Data.List.Forall2
import SurfaceReport.Proofs.StableOrder
import SurfaceReport.Proofs.XmlRoundTrip

/-!
# Declarations in another order

Types, fields and methods have no order of their own: a reader lists them
as it comes upon them. A report puts them in order by name, and by name
only. So what it keeps of the order in which they are listed is exactly
the order of those that share a name (`build_reordered_eq_iff`): methods
that overload each other, and types whose full names are equal.

Both directions come from one fact about sorting, that it forgets the
order of a list except within each name (`sortedBy_eq_iff`), carried up
from members (`typeTree_eq_iff`) to types (`moduleTrees_eq_iff`) to
modules (`tree_eq_iff`). What is compared under a name are nodes and not
declarations, because two overloads that a report shows alike may change
places without a trace.
-/

namespace SurfaceReport

/-! ## Other enumerations -/

/-- The type, its fields and its methods listed in some other order. -/
structure TypeDecl.Reorders (t u : TypeDecl) : Prop where
  ns : t.ns = u.ns
  name : t.name = u.name
  visibility : t.visibility = u.visibility
  fields : t.fields.Perm u.fields
  methods : t.methods.Perm u.methods

/-- The module, its types listed in some other order, and the members of
each in some other order. -/
structure Module.Reorders (m m' : Module) : Prop where
  name : m.name = m'.name
  types : ∃ types, m.types.Perm types ∧ List.Forall₂ TypeDecl.Reorders types m'.types

theorem TypeDecl.Reorders.fullName_eq {t u : TypeDecl} (h : t.Reorders u) :
    t.fullName = u.fullName := by
  rw [fullName, fullName, h.ns, h.name]

theorem TypeDecl.Reorders.exportsType_eq {t u : TypeDecl} (h : t.Reorders u)
    (rule : ExportRule) : rule.exportsType t = rule.exportsType u := by
  rw [ExportRule.exportsType, ExportRule.exportsType, isGenerated, isGenerated, h.ns, h.name,
    h.visibility]

namespace Report

variable (rule : ExportRule)

/-! ## What stands under a name -/

/-- The exported fields of one name, as they are declared. -/
def fieldsNamed (t : TypeDecl) (key : String) : List Field :=
  (t.fields.filter rule.exportsField).filter fun f => f.name == key

def methodsNamed (t : TypeDecl) (key : String) : List Method :=
  (t.methods.filter rule.exportsMethod).filter fun m => m.name == key

/-- The exported types of one full name, as they are declared. -/
def typesNamed (m : Module) (key : String) : List TypeDecl :=
  (m.types.filter rule.exportsType).filter fun t => t.fullName == key

/-- The types have the same names, and under each name of a member the
same nodes in the same order. -/
structure SameMembers (t u : TypeDecl) : Prop where
  ns : t.ns = u.ns
  fullName : t.fullName = u.fullName
  fields : ∀ key, (fieldsNamed rule t key).map fieldNode = (fieldsNamed rule u key).map fieldNode
  methods : ∀ key,
    (methodsNamed rule t key).map methodNode = (methodsNamed rule u key).map methodNode

/-- Under each full name, the modules have types with the same members in
the same order. -/
def SameTypes (m m' : Module) : Prop :=
  ∀ key, List.Forall₂ (SameMembers rule) (typesNamed rule m key) (typesNamed rule m' key)

/-! ## Nodes in order -/

def labelled (label : String) (n : Node) : String := (n.attribute? label).getD ""

theorem labelled_fieldNode (f : Field) : labelled "Name" (fieldNode f) = f.name := by
  simp [labelled, fieldNode, Node.attribute?]

theorem labelled_methodNode (m : Method) : labelled "Name" (methodNode m) = m.name := by
  simp [labelled, methodNode, Node.attribute?]

theorem labelled_typeTree (t : TypeDecl) :
    labelled "FullName" (typeTree rule t) = t.fullName := by
  simp [labelled, typeTree, typeNode, Node.attribute?]

/-- What is made of sorted elements is the same if and only if it is the
same under each name, provided that it still shows the name. -/
theorem map_sortedBy_eq_iff {α β : Type} {name : α → String} {image : β → String} {f : α → β}
    (h : ∀ a, image (f a) = name a) {xs ys : List α} :
    (sortedBy name xs).map f = (sortedBy name ys).map f
      ↔ ∀ key, (xs.filter fun a => name a == key).map f
        = (ys.filter fun a => name a == key).map f := by
  have hfilter : ∀ (zs : List α) key, (zs.map f).filter (fun b => image b == key)
      = (zs.filter fun a => name a == key).map f := by
    intro zs key
    rw [List.filter_map]
    simp only [Function.comp_def, h]
  rw [map_sortedBy h, map_sortedBy h, sortedBy_eq_iff]
  simp only [hfilter]

theorem childrenTagged_field (t : TypeDecl) :
    (typeTree rule t).childrenTagged "Field" = (exportedFields rule t).map fieldNode := by
  simp [Node.childrenTagged, typeTree, typeNode, fieldNode, methodNode, List.filter_map,
    Function.comp_def]

theorem childrenTagged_method (t : TypeDecl) :
    (typeTree rule t).childrenTagged "Method" = (exportedMethods rule t).map methodNode := by
  simp [Node.childrenTagged, typeTree, typeNode, fieldNode, methodNode, List.filter_map,
    Function.comp_def]

theorem typeTree_eq_iff {t u : TypeDecl} :
    typeTree rule t = typeTree rule u ↔ SameMembers rule t u := by
  have hfields : (exportedFields rule t).map fieldNode = (exportedFields rule u).map fieldNode
      ↔ ∀ key, (fieldsNamed rule t key).map fieldNode = (fieldsNamed rule u key).map fieldNode :=
    map_sortedBy_eq_iff labelled_fieldNode
  have hmethods : (exportedMethods rule t).map methodNode = (exportedMethods rule u).map methodNode
      ↔ ∀ key, (methodsNamed rule t key).map methodNode
        = (methodsNamed rule u key).map methodNode :=
    map_sortedBy_eq_iff labelled_methodNode
  constructor
  · intro h
    have hattributes : (typeTree rule t).attributes = (typeTree rule u).attributes := by rw [h]
    simp only [typeTree, typeNode, List.cons.injEq, Prod.mk.injEq, true_and, and_true]
      at hattributes
    refine ⟨hattributes.1, hattributes.2, hfields.mp ?_, hmethods.mp ?_⟩
    · rw [← childrenTagged_field, ← childrenTagged_field, h]
    · rw [← childrenTagged_method, ← childrenTagged_method, h]
  · intro h
    rw [typeTree, typeTree, typeNode, typeNode, h.ns, h.fullName, hfields.mpr h.fields,
      hmethods.mpr h.methods]

theorem moduleTrees_eq_iff {m m' : Module} :
    moduleTrees rule m = moduleTrees rule m' ↔ SameTypes rule m m' := by
  have hsorted : moduleTrees rule m = moduleTrees rule m'
      ↔ ∀ key, (typesNamed rule m key).map (typeTree rule)
        = (typesNamed rule m' key).map (typeTree rule) :=
    map_sortedBy_eq_iff (labelled_typeTree rule)
  rw [hsorted, SameTypes]
  refine forall_congr' fun key => ?_
  rw [← List.forall₂_eq_eq_eq, List.forall₂_map_left_iff, List.forall₂_map_right_iff]
  simp only [typeTree_eq_iff]

/-! ## Reordered modules -/

variable {rule}

/-- What does not ask for members keeps the same of reordered types. -/
theorem filter_reordered {keeps : TypeDecl → Bool}
    (hkeeps : ∀ t u, t.Reorders u → keeps t = keeps u)
    {types types' : List TypeDecl} (h : List.Forall₂ TypeDecl.Reorders types types') :
    List.Forall₂ TypeDecl.Reorders (types.filter keeps) (types'.filter keeps) :=
  List.rel_filter (fun t u htu => iff_of_eq (congrArg (· = true) (hkeeps t u htu))) h

theorem exported_reordered {types types' : List TypeDecl}
    (h : List.Forall₂ TypeDecl.Reorders types types') :
    List.Forall₂ TypeDecl.Reorders (types.filter rule.exportsType)
      (types'.filter rule.exportsType) :=
  filter_reordered (fun _ _ htu => htu.exportsType_eq rule) h

theorem length_moduleTrees_eq {m m' : Module} (h : m.Reorders m') :
    (moduleTrees rule m).length = (moduleTrees rule m').length := by
  obtain ⟨types, hperm, hreorders⟩ := h.types
  have hlength : ∀ m : Module,
      (moduleTrees rule m).length = (m.types.filter rule.exportsType).length := fun m => by
    rw [moduleTrees, List.length_map, exportedTypes, (sortedBy_perm _ _).length_eq]
  have hkept : (types.filter rule.exportsType).length
      = (m'.types.filter rule.exportsType).length := (exported_reordered hreorders).length_eq
  rw [hlength, hlength, (hperm.filter _).length_eq, hkept]

/-- The blocks of reordered modules have the same lengths, so that the
blocks can be told from their row. -/
theorem flatMap_moduleTrees_eq_iff {modules modules' : List Module}
    (h : List.Forall₂ Module.Reorders modules modules') :
    modules.flatMap (moduleTrees rule) = modules'.flatMap (moduleTrees rule)
      ↔ List.Forall₂ (SameTypes rule) modules modules' := by
  induction h with
  | nil => exact ⟨fun _ => .nil, fun _ => rfl⟩
  | @cons m m' modules modules' hm _ ih =>
      rw [List.flatMap_cons, List.flatMap_cons, List.forall₂_cons, ← ih, ← moduleTrees_eq_iff]
      constructor
      · intro h
        exact List.append_inj h (length_moduleTrees_eq hm)
      · rintro ⟨hblock, hrest⟩
        rw [hblock, hrest]

theorem tree_eq_iff {name : String} {modules modules' : List Module}
    (h : List.Forall₂ Module.Reorders modules modules') :
    tree rule name modules = tree rule name modules'
      ↔ List.Forall₂ (SameTypes rule) modules modules' := by
  rw [← flatMap_moduleTrees_eq_iff h]
  simp [tree, rootNode]

/-! ## Modules without equal names -/

variable (rule) in
/-- No two exported types of the module share a full name, and no two
exported fields or methods of a type share a name. -/
structure NamesApart (m : Module) : Prop where
  types : (m.types.filter rule.exportsType).Pairwise fun t u => t.fullName ≠ u.fullName
  fields : ∀ t ∈ m.types,
    (t.fields.filter rule.exportsField).Pairwise fun f g => f.name ≠ g.name
  methods : ∀ t ∈ m.types,
    (t.methods.filter rule.exportsMethod).Pairwise fun f g => f.name ≠ g.name

/-- Under a name that only one element has, there is one order. -/
theorem filter_name_eq_of_perm {α : Type} {name : α → String} {xs ys : List α}
    (h : xs.Perm ys) (hapart : xs.Pairwise fun a b => name a ≠ name b) (key : String) :
    xs.filter (fun a => name a == key) = ys.filter (fun a => name a == key) := by
  have hperm := h.filter fun a => name a == key
  have hnamed : ∀ a ∈ xs.filter (fun a => name a == key), name a = key := fun a ha =>
    eq_of_beq (List.mem_filter.mp ha).2
  have hone := hapart.filter fun a => name a == key
  generalize xs.filter (fun a => name a == key) = kept at *
  rcases kept with _ | ⟨a, _ | ⟨b, rest⟩⟩
  · exact (List.nil_perm.mp hperm).symm
  · exact List.singleton_perm.mp hperm
  · have hab : name a ≠ name b := List.rel_of_pairwise_cons hone (List.mem_cons_self ..)
    exact absurd ((hnamed a (by simp)).trans (hnamed b (by simp)).symm) hab

theorem sameMembers_of_reorders {t u : TypeDecl} (h : t.Reorders u)
    (hfields : (t.fields.filter rule.exportsField).Pairwise fun f g => f.name ≠ g.name)
    (hmethods : (t.methods.filter rule.exportsMethod).Pairwise fun f g => f.name ≠ g.name) :
    SameMembers rule t u where
  ns := h.ns
  fullName := h.fullName_eq
  fields key := congrArg _ (filter_name_eq_of_perm (h.fields.filter _) hfields key)
  methods key := congrArg _ (filter_name_eq_of_perm (h.methods.filter _) hmethods key)

theorem sameTypes_of_namesApart {m m' : Module} (h : m.Reorders m') (hapart : NamesApart rule m) :
    SameTypes rule m m' := by
  obtain ⟨types, hperm, hreorders⟩ := h.types
  intro key
  have hlisted : typesNamed rule m key
      = (types.filter rule.exportsType).filter fun t => t.fullName == key :=
    filter_name_eq_of_perm (hperm.filter _) hapart.types key
  have hnamed : List.Forall₂ TypeDecl.Reorders (typesNamed rule m key)
      (typesNamed rule m' key) := by
    rw [hlisted]
    exact filter_reordered (fun t u htu => by rw [htu.fullName_eq]) (exported_reordered hreorders)
  have hmem : ∀ t ∈ typesNamed rule m key, t ∈ m.types := fun t ht =>
    (List.mem_filter.mp (List.mem_filter.mp ht).1).1
  refine List.Forall₂.imp ?_ ((List.forall₂_and_left _ _).mpr ⟨hmem, hnamed⟩)
  rintro t u ⟨ht, htu⟩
  exact sameMembers_of_reorders htu (hapart.fields t ht) (hapart.methods t ht)

/-! ## What a report keeps of the order of declarations -/

/-- A type that declares methods which overload each other. -/
def modulesDeclaring (methods : List Method) : List Module :=
  [⟨"Game.dll", [{ ns := "A", name := "Player", methods }]⟩]

def moveHere : Method := ⟨"Move", "System.Void", .isPublic, .ordinary, []⟩

def moveBy : Method :=
  ⟨"Move", "System.Void", .isPublic, .ordinary, [⟨"distance", "System.Int32"⟩]⟩

theorem overloads_reordered :
    List.Forall₂ Module.Reorders (modulesDeclaring [moveHere, moveBy])
      (modulesDeclaring [moveBy, moveHere]) := by
  refine .cons ⟨rfl, _, .refl _, .cons ⟨rfl, rfl, rfl, .refl _, ?_⟩ .nil⟩ .nil
  exact .swap moveBy moveHere []

theorem not_sameTypes_of_overloads :
    ¬List.Forall₂ (SameTypes (.within none)) (modulesDeclaring [moveHere, moveBy])
      (modulesDeclaring [moveBy, moveHere]) := by
  intro h
  have hnamed : ∀ methods : List Method,
      typesNamed (.within none) ⟨"Game.dll", [{ ns := "A", name := "Player", methods }]⟩
        "A.Player" = [{ ns := "A", name := "Player", methods }] := fun methods => by
    simp [typesNamed, ExportRule.exportsType, ExportRule.admitsNamespace, ExportRule.within,
      TypeDecl.isGenerated, TypeDecl.fullName, modulePseudoType, generatedMark]
  have hplayer := (List.forall₂_cons.mp h).1 "A.Player"
  rw [hnamed, hnamed] at hplayer
  have hmove := (List.forall₂_cons.mp hplayer).1.methods "Move"
  have hparameters : [methodNode moveHere, methodNode moveBy].map (·.children.length)
      = [methodNode moveBy, methodNode moveHere].map (·.children.length) :=
    congrArg (List.map (·.children.length)) hmove
  exact absurd hparameters (by decide)

/-- The order in which a source lists overloads shows in the report. -/
theorem overloads_show_enumeration :
    ¬∀ (source source' : Source) (name : String) (modules modules' : List Module)
      (constraint : Option String), source.Offers name modules → source'.Offers name modules' →
      List.Forall₂ Module.Reorders modules modules' →
      ((build .memory (.within constraint) source).runFrom []).1
        = ((build .memory (.within constraint) source').runFrom []).1 := by
  intro h
  have hsame := h (.ofModules "Game" (modulesDeclaring [moveHere, moveBy]))
    (.ofModules "Game" (modulesDeclaring [moveBy, moveHere])) "Game" _ _ none ⟨rfl, rfl⟩
    ⟨rfl, rfl⟩ overloads_reordered
  rw [build_accepted ⟨rfl, rfl⟩ EventSink.memory_acceptsAll,
    build_accepted ⟨rfl, rfl⟩ EventSink.memory_acceptsAll] at hsame
  exact not_sameTypes_of_overloads ((tree_eq_iff overloads_reordered).mp (Except.ok.inj hsame))

/-- **What a report keeps of the order of declarations.** Modules whose
types and members are listed in another order lead to the same report,
and to the same document, if and only if the declarations of each name
look the same in their order; which is so whatever the order if no two of
them share a name. -/
theorem build_reordered_eq_iff {σ : Type} {sink : EventSink σ} {source source' : Source}
    {name : String} {modules modules' : List Module} (hsource : source.Offers name modules)
    (hsource' : source'.Offers name modules')
    (hreorders : List.Forall₂ Module.Reorders modules modules') (hsink : sink.AcceptsAll)
    (constraint : Option String) (s : σ) :
    ∃ root root', ((build sink (.within constraint) source).runFrom s).1 = .ok root
      ∧ ((build sink (.within constraint) source').runFrom s).1 = .ok root'
      ∧ (root = root' ↔ List.Forall₂ (SameTypes (.within constraint)) modules modules')
      ∧ (Xml.bytes root = Xml.bytes root' ↔ root = root')
      ∧ ((∀ m ∈ modules, NamesApart (.within constraint) m) → root = root') := by
  refine ⟨tree (.within constraint) name modules, tree (.within constraint) name modules', ?_, ?_,
    tree_eq_iff hreorders, ⟨?_, congrArg Xml.bytes⟩, ?_⟩
  · rw [build_accepted hsource hsink]
  · rw [build_accepted hsource' hsink]
  · exact Xml.eq_of_bytes_eq (wellNamed_of_shaped (tree_shaped _ name modules))
      (wellNamed_of_shaped (tree_shaped _ name modules'))
  · intro hapart
    refine (tree_eq_iff hreorders).mpr (List.Forall₂.imp ?_
      ((List.forall₂_and_left _ _).mpr ⟨hapart, hreorders⟩))
    rintro m m' ⟨hm, hmm'⟩
    exact sameTypes_of_namesApart hmm' hm

def stop : Method := ⟨"Stop", "System.Void", .isPublic, .ordinary, []⟩

theorem other_methods_reordered :
    List.Forall₂ Module.Reorders (modulesDeclaring [stop, moveBy])
      (modulesDeclaring [moveBy, stop]) := by
  refine .cons ⟨rfl, _, .refl _, .cons ⟨rfl, rfl, rfl, .refl _, ?_⟩ .nil⟩ .nil
  exact .swap moveBy stop []

theorem other_methods_namesApart :
    ∀ m ∈ modulesDeclaring [stop, moveBy], NamesApart (.within none) m := by
  intro m hm
  obtain rfl := List.mem_singleton.mp hm
  exact ⟨by decide, by decide, by decide⟩

/-- Two reports differ in the order of overloads; two others, where the
methods have names of their own, do not. -/
theorem build_reordered_methods :
    EventSink.memory.AcceptsAll
      ∧ List.Forall₂ Module.Reorders (modulesDeclaring [moveHere, moveBy])
        (modulesDeclaring [moveBy, moveHere])
      ∧ (∃ root root',
        ((build .memory (.within none)
            (.ofModules "Game" (modulesDeclaring [moveHere, moveBy]))).runFrom []).1 = .ok root
          ∧ ((build .memory (.within none)
            (.ofModules "Game" (modulesDeclaring [moveBy, moveHere]))).runFrom []).1 = .ok root'
          ∧ root ≠ root' ∧ Xml.bytes root ≠ Xml.bytes root')
      ∧ List.Forall₂ Module.Reorders (modulesDeclaring [stop, moveBy])
        (modulesDeclaring [moveBy, stop])
      ∧ (∀ m ∈ modulesDeclaring [stop, moveBy], NamesApart (.within none) m)
      ∧ ∃ root,
        ((build .memory (.within none)
            (.ofModules "Game" (modulesDeclaring [stop, moveBy]))).runFrom []).1 = .ok root
          ∧ ((build .memory (.within none)
            (.ofModules "Game" (modulesDeclaring [moveBy, stop]))).runFrom []).1 = .ok root := by
  have hsource : ∀ methods : List Method,
      (Source.ofModules "Game" (modulesDeclaring methods)).Offers "Game"
        (modulesDeclaring methods) := fun _ => ⟨rfl, rfl⟩
  obtain ⟨root, root', hroot, hroot', hsame, hbytes, -⟩ :=
    build_reordered_eq_iff (hsource _) (hsource _) overloads_reordered
      EventSink.memory_acceptsAll none []
  have hne : root ≠ root' := fun heq => not_sameTypes_of_overloads (hsame.mp heq)
  obtain ⟨other, other', hother, hother', -, -, happart⟩ :=
    build_reordered_eq_iff (hsource _) (hsource _) other_methods_reordered
      EventSink.memory_acceptsAll none []
  obtain rfl := happart other_methods_namesApart
  exact ⟨EventSink.memory_acceptsAll, overloads_reordered,
    ⟨root, root', hroot, hroot', hne, fun heq => hne (hbytes.mp heq)⟩, other_methods_reordered,
    other_methods_namesApart, other, hother, hother'⟩

end Report

end SurfaceReport
