/-!
# Report trees

A report is a tree of tagged nodes with ordered attributes and ordered children. It is put together
once and only read afterwards.
-/

namespace SurfaceReport

structure Node where
  tag : String
  attributes : List (String × String) := []
  children : List Node := []
  deriving Repr, Inhabited, BEq

namespace Node

/-- The node with one more attribute behind the ones it has. -/
def withAttribute (n : Node) (name value : String) : Node :=
  { n with attributes := n.attributes ++ [(name, value)] }

/-- The node with more children behind the ones it has. -/
def withChildren (n : Node) (children : List Node) : Node :=
  { n with children := n.children ++ children }

/-- The value of the first attribute with a name. -/
def attribute? (n : Node) (name : String) : Option String :=
  (n.attributes.find? (·.1 == name)).map (·.2)

/-- The children with a tag, in order. -/
def childrenTagged (n : Node) (tag : String) : List Node :=
  n.children.filter (·.tag == tag)

end Node

end SurfaceReport
