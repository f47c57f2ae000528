import Mathlib.Data.List.Forall2
import SurfaceReport.Proofs.Refusal
import SurfaceReport.Proofs.Trace

/-!
# The trace mirrors the tree

A walk leaves two things, the tree that it hands back and the events that
it recorded on its way. `Mirrors` relates the two without a look at the
declarations: given the names of the modules, the children of the root
fall into one block for each module, and the events are read off block by
block, node by node. It is a relation and not a function of the nodes, so
that a node which is neither a type nor a member, or which lacks the name
that its event shows, mirrors nothing.

The events of a type and its node are made from the same two sorted lists
(`typeTree_told`). From there on up it is one induction over the exported
types of a module and one over the modules (`tree_mirrors`).
-/

namespace SurfaceReport

namespace Report

/-! ## Nodes and what is told about them -/

/-- The event that was recorded for a member, by the member's node. -/
inductive MemberTold : Node → Event → Prop where
  | field {n : Node} {name : String} (htag : n.tag = "Field")
      (hname : n.attribute? "Name" = some name) :
      MemberTold n ⟨.info, "Found public field: " ++ name⟩
  | method {n : Node} {name : String} (htag : n.tag = "Method")
      (hname : n.attribute? "Name" = some name) :
      MemberTold n ⟨.info, "Found public method: " ++ name⟩

/-- The events that were recorded for a type, by the type's node: its
own, then one for each child in order. -/
def TypeTold (n : Node) (told : List Event) : Prop :=
  n.tag = "Type" ∧ ∃ fullName members, n.attribute? "FullName" = some fullName
    ∧ List.Forall₂ MemberTold n.children members
    ∧ told = ⟨.info, "Processing type: " ++ fullName⟩ :: members

/-- The events that were recorded for a module, by its block of nodes. -/
def ModuleTold (m : Module) (block : List Node) (told : List Event) : Prop :=
  ∃ types, List.Forall₂ TypeTold block types
    ∧ told = ⟨.info, "Processing module: " ++ m.name⟩ :: types.flatten

/-- The nodes fall into one block for each module, in the order of the
modules, and the events into what was recorded for each block. -/
inductive Mirrors : List Module → List Node → List Event → Prop where
  | nil : Mirrors [] [] []
  | cons {m : Module} {block : List Node} {told : List Event} {modules : List Module}
      {nodes : List Node} {events : List Event} (hblock : ModuleTold m block told)
      (hrest : Mirrors modules nodes events) :
      Mirrors (m :: modules) (block ++ nodes) (told ++ events)

/-! ## The walk -/

/-- Two images of one list are related place by place if the images of
each element are. -/
theorem forall₂_images {α β γ : Type} {R : β → γ → Prop} {f : α → β} {g : α → γ}
    (h : ∀ a, R (f a) (g a)) (xs : List α) : List.Forall₂ R (xs.map f) (xs.map g) := by
  rw [List.forall₂_map_left_iff, List.forall₂_map_right_iff, List.forall₂_same]
  intro a _
  exact h a

theorem fieldNode_told (f : Field) : MemberTold (fieldNode f) (fieldEvent f) := by
  refine .field rfl ?_
  simp [fieldNode, Node.attribute?]

theorem methodNode_told (m : Method) : MemberTold (methodNode m) (methodEvent m) := by
  refine .method rfl ?_
  simp [methodNode, Node.attribute?]

variable (rule : ExportRule)

theorem typeTree_told (t : TypeDecl) : TypeTold (typeTree rule t) (typeEvents rule t) := by
  refine ⟨rfl, t.fullName, _, ?_, ?_, rfl⟩
  · simp [typeTree, typeNode, Node.attribute?]
  · show List.Forall₂ MemberTold
      ((exportedFields rule t).map fieldNode ++ (exportedMethods rule t).map methodNode) _
    exact List.rel_append (forall₂_images fieldNode_told _) (forall₂_images methodNode_told _)

theorem moduleTrees_told (m : Module) :
    ModuleTold m (moduleTrees rule m) (moduleEvents rule m) := by
  refine ⟨(exportedTypes rule m).map (typeEvents rule), ?_, ?_⟩
  · exact forall₂_images (typeTree_told rule) (exportedTypes rule m)
  · rw [moduleEvents, List.flatMap_def]
    rfl

theorem tree_mirrors (modules : List Module) :
    Mirrors modules (modules.flatMap (moduleTrees rule)) (modules.flatMap (moduleEvents rule)) := by
  induction modules with
  | nil => exact .nil
  | cons m modules ih =>
      rw [List.flatMap_cons, List.flatMap_cons]
      exact .cons (moduleTrees_told rule m) ih

/-- **The trace mirrors the tree.** If the source can be read, there are a
report and a trace such that every receiver that accepts all events is
handed the trace and nothing else, a list in memory holds it in the end,
and the report is mirrored in it. -/
theorem build_mirrors_trace {source : Source} {name : String} {modules : List Module}
    (hsource : source.Offers name modules) (constraint : Option String) :
    ∃ root events, LeadsTo source constraint root events
      ∧ ((build .memory (.within constraint) source).runFrom []).2.sink = events
      ∧ root.tag = "Assembly" ∧ Mirrors modules root.children events := by
  refine ⟨_, _, leadsTo_tree hsource constraint, ?_, rfl, ?_⟩
  · rw [build_accepted hsource EventSink.memory_acceptsAll, traceOf_moduleTrees,
      EventSink.feed_memory, List.nil_append]
  · rw [traceOf_moduleTrees]
    exact tree_mirrors (.within constraint) modules

theorem build_mirrors_trace_of_meeting_names :
    (Source.ofModules "Game" modulesWithMeetingNames).Offers "Game" modulesWithMeetingNames
      ∧ ∃ root events,
        LeadsTo (.ofModules "Game" modulesWithMeetingNames) (some "A") root events
          ∧ ((build .memory (.within (some "A"))
              (.ofModules "Game" modulesWithMeetingNames)).runFrom []).2.sink = events
          ∧ root.tag = "Assembly" ∧ Mirrors modulesWithMeetingNames root.children events :=
  ⟨offers_meeting_names, build_mirrors_trace offers_meeting_names (some "A")⟩

end Report

end SurfaceReport
