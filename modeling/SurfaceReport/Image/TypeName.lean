import SurfaceReport.Members
import SurfaceReport.Name
import SurfaceReport.Image.Declarations
import SurfaceReport.Image.Outline

/-!
# What tokens of types stand for

A token names a row. A type that is declared in the image shows the types that it is nested in; one
that is declared elsewhere shows its own row alone. A row that spells a type by a signature stands
for that type, by the namespace and the name of what it is made of: a type that is only named keeps
them, any other has a name that says how it is made. Such a name shows no arguments, but how many
there are.
-/

namespace SurfaceReport

namespace Image

/-! ## Names of spelled types -/

/-- The name that function pointers give to a calling convention. -/
def conventionName : CallingConvention → String
  | .managed => "default"
  | .cdecl => "cdecl"
  | .stdcall => "stdcall"
  | .thiscall => "thiscall"
  | .fastcall => "fastcall"

/-- The name of a pointer to code that takes so many parameters and gives back a type. -/
def functionPointerName (convention : CallingConvention) (count : Nat) (result : Signature) :
    String :=
  "FnPtr_" ++ conventionName convention ++ "_" ++ toString count ++ "_" ++ shortOutline result

/-- The name of a generic type with so many arguments. A name that has a marker already keeps it. -/
def withArity (name : String) (count : Nat) : String :=
  if name.toList.contains Name.arityMarker then name
  else name ++ String.singleton Name.arityMarker ++ toString count

/-- A type by its own row: its namespace and its name. -/
structure RowName where
  ns : String
  name : String
  deriving DecidableEq, Repr, Inhabited

namespace RowName

def mapName (n : RowName) (f : String → String) : RowName := { n with name := f n.name }

/-- The full name of a type that is nested in none. -/
def fullName (n : RowName) : String := NestedName.fullName ⟨n.ns, n.name, []⟩

end RowName

/-- A type is there without a row that spells it, and no such row stands for it. These are the
primitives but one. -/
def isGiven : Signature → Bool
  | .primitive p => p != .typedReference
  | _ => false

/-! ## Names behind tokens -/

namespace Declarations

variable (d : Declarations)

def typeDef? (number : Nat) : Option TypeDefRow := (rowAt? d.typeDefs number).join

def typeRef? (number : Nat) : Option TypeRefRow := (rowAt? d.typeRefs number).join

def typeSpec? (number : Nat) : Option Signature := (rowAt? d.typeSpecs number).join

/-- The row of the type that a type is nested in: the first one that is there. -/
def enclosing? (number : Nat) : Option Nat :=
  (d.nestedClasses.find? fun row =>
    row.nested == number && (d.typeDef? row.enclosing).isSome).map (·.enclosing)

/-- The type at a row, with the types that it is nested in. There are fewer of them than rows that
say so. -/
def nestedName? : (fuel : Nat) → (number : Nat) → Option NestedName
  | 0, _ => none
  | fuel + 1, number => do
    let row ← d.typeDef? number
    match (d.enclosing? number).bind (nestedName? fuel) with
    | some enclosing => return enclosing.nest row.name
    | none => return ⟨row.ns, row.name, []⟩

def typeDefName? (number : Nat) : Option String :=
  (d.nestedName? (d.nestedClasses.length + 1) number).map NestedName.fullName

def rowOf? (token : Token) : Option (Table × Nat) :=
  (Table.ofNumber? (token.value.toNat / Table.rowLimit)).map fun table =>
    (table, token.value.toNat % Table.rowLimit)

/-- Namespace and name behind a token of a row that has them itself. -/
def ownName? (token : Token) : Option RowName :=
  match rowOf? token with
  | some (.typeDef, number) => (d.typeDef? number).map fun row => ⟨row.ns, row.name⟩
  | some (.typeRef, number) => (d.typeRef? number).map fun row => ⟨row.ns, row.name⟩
  | _ => none

def spelled? (token : Token) : Option Signature :=
  match rowOf? token with
  | some (.typeSpec, number) => d.typeSpec? number
  | _ => none

/-- How many types can be in each other in a spelled type that has a name. -/
def spellingLimit : Nat := 100

/-- The name of a spelled type, if there is a row behind the token that it is made from. Neither the
arguments of a generic type nor what is behind a pointer to code has to have a name. -/
def spelledName? : (levels : Nat) → Signature → Option RowName
  | 0, _ => none
  | levels + 1, signature =>
    match signature with
    | .primitive p => some ⟨Primitive.ns, p.name⟩
    | .named _ token =>
      match d.spelled? token with
      | some signature => spelledName? levels signature
      | none => d.ownName? token
    | .typeParameter index => some ⟨"", "T" ++ toString index.toNat⟩
    | .methodParameter index => some ⟨"", "TM" ++ toString index.toNat⟩
    | .vector element => (spelledName? levels element).map (·.mapName (· ++ "[]"))
    | .array element rank => (spelledName? levels element).map (·.mapName (· ++ rankSuffix rank))
    | .pointer target => (spelledName? levels target).map (·.mapName (· ++ "*"))
    | .byRef target => (spelledName? levels target).map (·.mapName (· ++ "&"))
    | .pinned target => (spelledName? levels target).map (·.mapName ("pinned " ++ ·))
    | .instantiation base arguments =>
      (spelledName? levels base).map (·.mapName (withArity · arguments.length))
    | .functionPointer convention count result =>
      some ⟨"", functionPointerName convention count result⟩
    | .marker _ => none

/-- The full name behind a token. -/
def resolve (token : Token) : Option String :=
  match rowOf? token with
  | some (.typeDef, number) => d.typeDefName? number
  | some (.typeSpec, number) =>
    ((d.typeSpec? number).filter (!isGiven ·)).bind fun signature =>
      (d.spelledName? spellingLimit signature).map RowName.fullName
  | _ => (d.ownName? token).map RowName.fullName

/-- Position and name of the generic parameters of a row. -/
def genericNames (table : Table) (number : Nat) : List (UInt32 × String) :=
  (d.genericParameters.filter (·.owner == some (table, number))).map fun row =>
    (row.position, row.name)

/-- What tokens and positions stand for in the members of a type. -/
def typeScope (number : Nat) : Scope where
  resolve := d.resolve
  typeParameters := d.genericNames .typeDef number

/-- What tokens and positions stand for in a method of a type. -/
def methodScope (type method : Nat) : Scope :=
  { d.typeScope type with methodParameters := d.genericNames .methodDef method }

end Declarations

end Image

end SurfaceReport
