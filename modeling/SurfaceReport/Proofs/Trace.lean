import SurfaceReport.Proofs.Walk

/-!
# Events and nodes

The events of a walk and the nodes of its report tell the same story: a
type's events can be read off its node (`announcements_typeTree`). So
the events of a whole run are those of the modules' blocks of nodes, and
what a statement says about nodes it can say about events.
-/

namespace SurfaceReport

namespace Node

/-- The events that a member's node stands for. Other nodes stand for
none. -/
def memberAnnouncements (n : Node) : List Event :=
  let name := (n.attribute? "Name").getD ""
  if n.tag = "Field" then [.info ("Found public field: " ++ name)]
  else if n.tag = "Method" then [.info ("Found public method: " ++ name)]
  else []

/-- The events that a type's node stands for: its own, then those of its
members. -/
def announcements (n : Node) : List Event :=
  .info ("Processing type: " ++ (n.attribute? "FullName").getD "")
    :: n.children.flatMap memberAnnouncements

end Node

namespace Report

/-- The events of modules that contribute the given blocks of nodes. -/
def traceOf (modules : List Module) (blocks : List (List Node)) : List Event :=
  (List.zipWith (fun m block => moduleEvent m :: block.flatMap Node.announcements)
    modules blocks).flatten

theorem memberAnnouncements_fieldNode (f : Field) :
    (fieldNode f).memberAnnouncements = [fieldEvent f] := by
  simp [Node.memberAnnouncements, fieldNode, fieldEvent, Node.attribute?]

theorem memberAnnouncements_methodNode (m : Method) :
    (methodNode m).memberAnnouncements = [methodEvent m] := by
  simp [Node.memberAnnouncements, methodNode, methodEvent, Node.attribute?]

theorem announcements_typeTree (rule : ExportRule) (t : TypeDecl) :
    (typeTree rule t).announcements = typeEvents rule t := by
  have hfields : ((exportedFields rule t).map fieldNode).flatMap Node.memberAnnouncements
      = (exportedFields rule t).map fieldEvent := by
    rw [List.flatMap_map, List.map_eq_flatMap]
    simp only [memberAnnouncements_fieldNode]
  have hmethods : ((exportedMethods rule t).map methodNode).flatMap Node.memberAnnouncements
      = (exportedMethods rule t).map methodEvent := by
    rw [List.flatMap_map, List.map_eq_flatMap]
    simp only [memberAnnouncements_methodNode]
  rw [typeEvents, ← hfields, ← hmethods, ← List.flatMap_append]
  rfl

theorem announcements_moduleTrees (rule : ExportRule) (m : Module) :
    moduleEvent m :: (moduleTrees rule m).flatMap Node.announcements = moduleEvents rule m := by
  simp only [moduleTrees, moduleEvents, List.flatMap_map, announcements_typeTree]

theorem traceOf_moduleTrees (rule : ExportRule) (modules : List Module) :
    traceOf modules (modules.map (moduleTrees rule)) = modules.flatMap (moduleEvents rule) := by
  induction modules with
  | nil => rfl
  | cons m rest ih =>
      rw [List.flatMap_cons, ← ih, ← announcements_moduleTrees]
      rfl

/-- Whatever receiver accepts all events, under the constraint the source
leads to the report `root` and to exactly `events`. -/
def LeadsTo (source : Source) (constraint : Option String) (root : Node)
    (events : List Event) : Prop :=
  ∀ (σ : Type) (sink : EventSink σ) (s : σ), sink.AcceptsAll →
    ((build sink (.within constraint) source).runFrom s).1 = .ok root
      ∧ ((build sink (.within constraint) source).runFrom s).2.sink = sink.feed events s

theorem leadsTo_tree {source : Source} {name : String} {modules : List Module}
    (hsource : source.Offers name modules) (constraint : Option String) :
    LeadsTo source constraint (tree (.within constraint) name modules)
      (traceOf modules (modules.map (moduleTrees (.within constraint)))) := by
  intro σ sink s hsink
  rw [build_accepted hsource hsink, traceOf_moduleTrees]
  exact ⟨rfl, rfl⟩

end Report

end SurfaceReport
