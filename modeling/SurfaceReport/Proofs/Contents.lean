import Mathlib.Data.List.Forall2
import SurfaceReport.Proofs.StableOrder
import SurfaceReport.Proofs.Walk

/-!
# What a report contains

A report shows what is exported, all of it, once for each declaration,
in order, and shows nothing else. This is said level by level as a
relation between a declaration and a node (`ShowsAssembly` down to
`ShowsParameter`), with `Arranges` for the order of the levels that are
sorted and `List.Forall₂` where the order of the declaration is kept.

The relation knows nothing of the walk. That the walk establishes it is
`build_shows_assembly`: the walk hands back `tree` (`build_accepted`), a
tree made of maps over sorted lists, and each map is one level of the
relation.
-/

namespace SurfaceReport

namespace Report

/-! ## Declarations and their nodes -/

/-- A parameter's name and short type, with nothing below them. -/
structure ShowsParameter (p : Parameter) (n : Node) : Prop where
  tag : n.tag = "Parameter"
  attributes : n.attributes = [("Name", p.name), ("Type", displayName p.typeName)]
  childless : n.children = []

/-- A field's name and short type, with nothing below them. -/
structure ShowsField (f : Field) (n : Node) : Prop where
  tag : n.tag = "Field"
  attributes : n.attributes = [("Name", f.name), ("Type", displayName f.typeName)]
  childless : n.children = []

/-- A method's name and short result type, and below them its parameters
as they are declared. -/
structure ShowsMethod (m : Method) (n : Node) : Prop where
  tag : n.tag = "Method"
  attributes : n.attributes = [("Name", m.name), ("ReturnType", displayName m.returnType)]
  parameters : List.Forall₂ ShowsParameter m.parameters n.children

variable (rule : ExportRule)

/-- A type's namespace and full name, and below them its exported fields
by name, then its exported methods by name. -/
structure ShowsType (t : TypeDecl) (n : Node) : Prop where
  tag : n.tag = "Type"
  attributes : n.attributes = [("Namespace", t.ns), ("FullName", t.fullName)]
  members : ∃ fields methods fieldNodes methodNodes,
    Arranges Field.name rule.exportsField t.fields fields
      ∧ Arranges Method.name rule.exportsMethod t.methods methods
      ∧ List.Forall₂ ShowsField fields fieldNodes
      ∧ List.Forall₂ ShowsMethod methods methodNodes
      ∧ n.children = fieldNodes ++ methodNodes

def ShowsModule (m : Module) (block : List Node) : Prop :=
  ∃ types, Arranges TypeDecl.fullName rule.exportsType m.types types
    ∧ List.Forall₂ (ShowsType rule) types block

/-- The assembly's name, and below it a block of types for each module,
as the modules are listed. -/
structure ShowsAssembly (name : String) (modules : List Module) (n : Node) : Prop where
  tag : n.tag = "Assembly"
  attributes : n.attributes = [("Name", name)]
  types : ∃ blocks, List.Forall₂ (ShowsModule rule) modules blocks ∧ n.children = blocks.flatten

/-! ## The tree shows the declarations -/

theorem forall₂_map {α β : Type} {R : α → β → Prop} {f : α → β} (h : ∀ a, R a (f a))
    (xs : List α) : List.Forall₂ R xs (xs.map f) :=
  List.forall₂_map_right_iff.mpr (List.forall₂_same.mpr fun a _ => h a)

theorem parameterNode_shows (p : Parameter) : ShowsParameter p (parameterNode p) :=
  ⟨rfl, rfl, rfl⟩

theorem fieldNode_shows (f : Field) : ShowsField f (fieldNode f) :=
  ⟨rfl, rfl, rfl⟩

theorem methodNode_shows (m : Method) : ShowsMethod m (methodNode m) :=
  ⟨rfl, rfl, forall₂_map parameterNode_shows _⟩

theorem typeTree_shows (t : TypeDecl) : ShowsType rule t (typeTree rule t) where
  tag := rfl
  attributes := rfl
  members := ⟨exportedFields rule t, exportedMethods rule t, _, _, arranges_sortedBy _ _ _,
    arranges_sortedBy _ _ _, forall₂_map fieldNode_shows _, forall₂_map methodNode_shows _, rfl⟩

theorem moduleTrees_shows (m : Module) : ShowsModule rule m (moduleTrees rule m) :=
  ⟨exportedTypes rule m, arranges_sortedBy _ _ _, forall₂_map (typeTree_shows rule) _⟩

theorem tree_shows (name : String) (modules : List Module) :
    ShowsAssembly rule name modules (tree rule name modules) where
  tag := rfl
  attributes := rfl
  types := ⟨modules.map (moduleTrees rule), forall₂_map (moduleTrees_shows rule) _,
    List.flatMap_def⟩

/-- **A report is complete.** If the source can be read and no event is
refused, building succeeds, and the report shows exactly what is exported
of the modules, each level in its order. -/
theorem build_shows_assembly {σ : Type} {sink : EventSink σ} {source : Source} {name : String}
    {modules : List Module} (hsource : source.Offers name modules) (hsink : sink.AcceptsAll)
    (constraint : Option String) (s : σ) :
    ∃ root, ((build sink (.within constraint) source).runFrom s).1 = .ok root
      ∧ ShowsAssembly (.within constraint) name modules root := by
  refine ⟨tree (.within constraint) name modules, ?_, tree_shows _ name modules⟩
  rw [build_accepted hsource hsink]

theorem build_shows_meeting_names :
    (Source.ofModules "Game" modulesWithMeetingNames).Offers "Game" modulesWithMeetingNames
      ∧ EventSink.memory.AcceptsAll
      ∧ ∃ root, ((build .memory (.within none)
            (.ofModules "Game" modulesWithMeetingNames)).runFrom []).1 = .ok root
          ∧ ShowsAssembly (.within none) "Game" modulesWithMeetingNames root :=
  ⟨offers_meeting_names, EventSink.memory_acceptsAll,
    build_shows_assembly offers_meeting_names EventSink.memory_acceptsAll none []⟩

end Report

end SurfaceReport
