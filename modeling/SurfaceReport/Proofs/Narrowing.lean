import SurfaceReport.Proofs.StableOrder
import SurfaceReport.Proofs.Trace

/-!
# Narrowing a report to a namespace

A constraint is applied to declarations, before they are sorted and
before anything is announced. The same report comes out if everything is
built and the nodes of the other namespaces are taken out of it
afterwards (`Node.withoutForeign`), and the same events come out if those
of the nodes that are taken out are left out.

The two orders of work differ in what is sorted: full names do not tell
namespaces apart, so types of other namespaces can stand among the
wanted ones wherever names are equal. Sorting keeps equal names in order
with or without them (`filter_sortedBy`), which is why they can be taken
out at any time.
-/

namespace SurfaceReport

/-! ## The rule -/

namespace ExportRule

theorem within_empty : within (some "") = within none := rfl

/-- A constraint keeps, of what is exported anyway, the types of one
namespace. -/
theorem exportsType_within {ns : String} (hns : ns ≠ "") (t : TypeDecl) :
    (within (some ns)).exportsType t = ((within none).exportsType t && t.ns == ns) := by
  simp [exportsType, admitsNamespace, within, hns, Option.filter]

end ExportRule

/-! ## Nodes -/

namespace Node

def isForeign (ns : String) (n : Node) : Bool :=
  n.tag == "Type" && n.attribute? "Namespace" != some ns

/-- The report without the types of other namespaces. -/
def withoutForeign (ns : String) (n : Node) : Node :=
  { n with children := n.children.filter fun child => !child.isForeign ns }

end Node

namespace Report

theorem isForeign_typeTree (rule : ExportRule) (ns : String) (t : TypeDecl) :
    (typeTree rule t).isForeign ns = (t.ns != ns) := by
  simp [Node.isForeign, typeTree, typeNode, Node.attribute?, bne]

theorem typeTree_within (constraint : Option String) :
    typeTree (.within constraint) = typeTree (.within none) := rfl

theorem exportedTypes_within {ns : String} (hns : ns ≠ "") (m : Module) :
    exportedTypes (.within (some ns)) m
      = (exportedTypes (.within none) m).filter fun t => t.ns == ns := by
  rw [exportedTypes, exportedTypes, filter_sortedBy, List.filter_filter]
  congr 1
  exact List.filter_congr fun t _ => by rw [ExportRule.exportsType_within hns, Bool.and_comm]

/-- A module's block of nodes under a constraint is what is left of its
whole block. -/
theorem moduleTrees_within {ns : String} (hns : ns ≠ "") (m : Module) :
    moduleTrees (.within (some ns)) m
      = (moduleTrees (.within none) m).filter fun n => !n.isForeign ns := by
  rw [moduleTrees, moduleTrees, typeTree_within, exportedTypes_within hns, List.filter_map]
  congr 1
  refine List.filter_congr fun t _ => ?_
  rw [Function.comp_apply, isForeign_typeTree, bne, Bool.not_not]

theorem tree_within {ns : String} (hns : ns ≠ "") (name : String) (modules : List Module) :
    tree (.within (some ns)) name modules
      = (tree (.within none) name modules).withoutForeign ns := by
  have hblocks : moduleTrees (.within (some ns))
      = fun m => (moduleTrees (.within none) m).filter fun n => !n.isForeign ns :=
    funext (moduleTrees_within hns)
  simp only [tree, rootNode, hblocks, Node.withoutForeign, List.filter_flatMap]

/-- **Filtering before building is filtering the report.** Under a
namespace the report is the whole report without the types of other
namespaces, and the events are the events of the whole run without those
of the types that are taken out, module by module. Under the empty
namespace nothing changes at all. -/
theorem build_within_eq_withoutForeign {source : Source} {name : String} {modules : List Module}
    (hsource : source.Offers name modules) :
    (∀ ns, ns ≠ "" → ∃ root blocks,
        LeadsTo source none root (traceOf modules blocks)
          ∧ root.children = blocks.flatten ∧ blocks.length = modules.length
          ∧ LeadsTo source (some ns) (root.withoutForeign ns)
              (traceOf modules (blocks.map fun block => block.filter fun n => !n.isForeign ns)))
      ∧ ∀ {σ : Type} (sink : EventSink σ) (s : σ),
        (build sink (.within (some "")) source).runFrom s
          = (build sink (.within none) source).runFrom s := by
  constructor
  · intro ns hns
    refine ⟨_, modules.map (moduleTrees (.within none)), leadsTo_tree hsource none,
      List.flatMap_def, List.length_map .., ?_⟩
    have hblocks : modules.map (moduleTrees (.within (some ns)))
        = (modules.map (moduleTrees (.within none))).map
            fun block => block.filter fun n => !n.isForeign ns := by
      rw [List.map_map]
      exact List.map_congr_left fun m _ => moduleTrees_within hns m
    rw [← tree_within hns, ← hblocks]
    exact leadsTo_tree hsource (some ns)
  · intro σ sink s
    rw [ExportRule.within_empty]

theorem build_within_namespace_of_meeting_names :
    (Source.ofModules "Game" modulesWithMeetingNames).Offers "Game" modulesWithMeetingNames
      ∧ "A" ≠ "" ∧ ∃ root blocks,
        LeadsTo (.ofModules "Game" modulesWithMeetingNames) none root
            (traceOf modulesWithMeetingNames blocks)
          ∧ root.children = blocks.flatten ∧ blocks.length = modulesWithMeetingNames.length
          ∧ LeadsTo (.ofModules "Game" modulesWithMeetingNames) (some "A")
              (root.withoutForeign "A") (traceOf modulesWithMeetingNames
                (blocks.map fun block => block.filter fun n => !n.isForeign "A")) :=
  ⟨offers_meeting_names, by decide,
    (build_within_eq_withoutForeign offers_meeting_names).1 "A" (by decide)⟩

end Report

end SurfaceReport
