import SurfaceReport.Metadata
import SurfaceReport.Signature

/-!
# Facts about members that metadata keeps in rows of their own

Whether a method is an accessor, and what its parameters are called, is not said where the method
is declared: properties name their accessors by token, and parameters have rows with a number. A
type's name is not said in one place either, if it is nested.
-/

namespace SurfaceReport

/-! ## Accessors -/

/-- The methods that the properties of a type name as their accessors. -/
structure PropertyAccessors where
  getters : List Token := []
  setters : List Token := []
  deriving Repr, Inhabited

/-- The bits of a method's attribute word that tell a constructor: the name is special, and it is
special to the runtime. -/
def constructorBits : UInt32 := 0x1800

/-- The bits of an attribute word that tell a constructor, and no others. -/
def specialBits (flags : UInt32) : UInt32 := flags &&& constructorBits

def constructorNames : List String := [".ctor", ".cctor"]

namespace PropertyAccessors

/-- The kind of a method. Only a method with a constructor's name and both special bits is a
constructor; an accessor is told by its token, whatever it is called. -/
def kind (accessors : PropertyAccessors) (name : String) (token : Token) (flags : UInt32) :
    Accessor :=
  if specialBits flags == constructorBits && constructorNames.contains name then .constructor
  else if accessors.getters.contains token then .getter
  else if accessors.setters.contains token then .setter
  else .ordinary

end PropertyAccessors

/-! ## Parameters -/

/-- The name of the parameter with a number: that of the first row with this number, if the row has
one. -/
def parameterName (rows : List (UInt32 × Option String)) (number : Nat) : String :=
  match rows.find? fun row => row.1.toNat == number with
  | some (_, some name) => name
  | _ => ""

/-- The names of `count` parameters, which are numbered from 1. Number 0 is the result. -/
def parameterNames (rows : List (UInt32 × Option String)) (count : Nat) : List String :=
  (List.range count).map fun i => parameterName rows (i + 1)

/-! ## Nested types -/

def nestingMark : String := "/"

/-- A type by the types around it: the outermost type with its namespace, and the names of the
types nested in it, from the outside in. -/
structure NestedName where
  ns : String
  outermost : String
  inner : List String := []
  deriving DecidableEq, Repr, Inhabited

namespace NestedName

/-- The type of a name that is nested in a type. -/
def nest (enclosing : NestedName) (name : String) : NestedName :=
  { enclosing with inner := enclosing.inner ++ [name] }

/-- The full name of a type, which shows the types around it but no namespace of its own. -/
def fullName (n : NestedName) : String :=
  n.inner.foldl (fun outer name => outer ++ nestingMark ++ name)
    (if n.ns.isEmpty then n.outermost else n.ns ++ "." ++ n.outermost)

end NestedName

end SurfaceReport
