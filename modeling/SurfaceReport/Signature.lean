/-!
# Signature types and their names

The type of a field, parameter or result, as metadata spells it, and the full name that it is
printed under: `System.Int32`, `System.Byte[]`, `System.Collections.Generic.List` with its arity
and its arguments between angle brackets, `Ns.Outer/Inner`.

A name depends on what tokens and generic parameters stand for, which a `Scope` answers. A token
that stands for nothing has the empty name. Which tokens those are is a second function of the same
signature, in the order in which a reader of the name looks them up.
-/

namespace SurfaceReport

/-! ## Signatures -/

/-- Refers to a row of a metadata table. -/
structure Token where
  value : UInt32
  deriving DecidableEq, Repr, Inhabited

/-- The types that have an element type code of their own. -/
inductive Primitive where
  | void | boolean | char | int8 | uint8 | int16 | uint16 | int32 | uint32 | int64 | uint64
  | float32 | float64 | string | object | intPtr | uintPtr | typedReference
  deriving DecidableEq, Repr, Inhabited

def Primitive.ns : String := "System"

def Primitive.name : Primitive → String
  | void => "Void"
  | boolean => "Boolean"
  | char => "Char"
  | int8 => "SByte"
  | uint8 => "Byte"
  | int16 => "Int16"
  | uint16 => "UInt16"
  | int32 => "Int32"
  | uint32 => "UInt32"
  | int64 => "Int64"
  | uint64 => "UInt64"
  | float32 => "Single"
  | float64 => "Double"
  | string => "String"
  | object => "Object"
  | intPtr => "IntPtr"
  | uintPtr => "UIntPtr"
  | typedReference => "TypedReference"

def Primitive.fullName (p : Primitive) : String := Primitive.ns ++ "." ++ p.name

/-- What a named type is. -/
inductive TypeKind where
  | classType | valueType
  deriving DecidableEq, Repr, Inhabited

/-- How the code behind a function pointer is called. -/
inductive CallingConvention where
  | managed | cdecl | stdcall | thiscall | fastcall
  deriving DecidableEq, Repr, Inhabited

/-- What can stand in the place of a type without being one. -/
inductive Marker where
  | internal | modifier | sentinel | requiredModifier | optionalModifier | reserved
  deriving DecidableEq, Repr, Inhabited

inductive Signature where
  | primitive (p : Primitive)
  | named (kind : TypeKind) (token : Token)
  /-- A generic parameter of the declaring type, by its position. -/
  | typeParameter (index : UInt32)
  /-- A generic parameter of the declaring method, by its position. -/
  | methodParameter (index : UInt32)
  /-- A one-dimensional array that starts at zero. -/
  | vector (element : Signature)
  /-- An array of any rank and bounds. -/
  | array (element : Signature) (rank : UInt32)
  | pointer (target : Signature)
  | byRef (target : Signature)
  /-- A local that must not be moved. -/
  | pinned (target : Signature)
  /-- A generic type with its arguments. -/
  | instantiation (base : Signature) (arguments : List Signature)
  /-- A pointer to code, by how many parameters it declares and what it gives back. -/
  | functionPointer (convention : CallingConvention) (parameterCount : Nat) (result : Signature)
  /-- A marker, which names no type. -/
  | marker (m : Marker)
  deriving Repr, Inhabited

/-! ## Names -/

/-- What a signature refers to by token or by position. -/
structure Scope where
  /-- The full name behind a token, if there is a row behind it. -/
  resolve : Token → Option String
  /-- Position and declared name of the generic parameters of the declaring type. -/
  typeParameters : List (UInt32 × String) := []
  /-- Position and declared name of the generic parameters of the declaring method. -/
  methodParameters : List (UInt32 × String) := []

/-- The declared name of the generic parameter at a position: that of the first row with this
number and a name. -/
def declaredName? (rows : List (UInt32 × String)) (index : UInt32) : Option String :=
  (rows.find? fun row => row.1 == index && !row.2.isEmpty).map (·.2)

def rankSuffix (rank : UInt32) : String :=
  "[" ++ .ofList (List.replicate (rank.toNat - 1) ',') ++ "]"

def commaSeparated : List String → String
  | [] => ""
  | [text] => text
  | text :: rest => text ++ "," ++ commaSeparated rest

namespace Signature

variable (scope : Scope)

mutual

/-- The full name of a type. -/
def fullName : Signature → String
  | primitive p => p.fullName
  | named _ token => (scope.resolve token).getD ""
  | typeParameter index =>
    (declaredName? scope.typeParameters index).getD ("!" ++ toString index.toNat)
  | methodParameter index =>
    (declaredName? scope.methodParameters index).getD ("!!" ++ toString index.toNat)
  | vector element => fullName element ++ "[]"
  | array element rank => fullName element ++ rankSuffix rank
  | pointer target => fullName target ++ "*"
  | byRef target => fullName target ++ "&"
  | pinned target => fullName target
  | instantiation base arguments =>
    fullName base ++ "<" ++ commaSeparated (fullNames arguments) ++ ">"
  | functionPointer _ _ _ => "method"
  | marker _ => ""

def fullNames : List Signature → List String
  | [] => []
  | signature :: rest => fullName signature :: fullNames rest

end

/-- The full name of a parameter or result, which may be passed by reference. -/
def passedName (signature : Signature) (byReference : Bool) : String :=
  if byReference then signature.fullName scope ++ "&" else signature.fullName scope

mutual

/-- The tokens of a type that stand for nothing. The arguments of a generic type are looked up
before the type itself. A function pointer has a name of its own, so nothing in it is looked up. -/
def unresolved : Signature → List Token
  | named _ token => if (scope.resolve token).isNone then [token] else []
  | vector element => unresolved element
  | array element _ => unresolved element
  | pointer target => unresolved target
  | byRef target => unresolved target
  | pinned target => unresolved target
  | instantiation base arguments => unresolvedAll arguments ++ unresolved base
  | primitive _ | typeParameter _ | methodParameter _ | functionPointer _ _ _ | marker _ => []

/-- The tokens of several types that stand for nothing. -/
def unresolvedAll : List Signature → List Token
  | [] => []
  | signature :: rest => unresolved signature ++ unresolvedAll rest

end

end Signature

/-! ## Diagnostics -/

/-- A token in eight hexadecimal digits. -/
def Token.text (token : Token) : String :=
  let digits := Nat.toDigits 16 token.value.toNat
  "0x" ++ .ofList (List.replicate (8 - digits.length) '0' ++ digits)

/-- The diagnostics about the tokens of a type that stand for nothing. -/
def Signature.notes (scope : Scope) (signature : Signature) : List String :=
  (signature.unresolved scope).map fun token => "unresolved type token " ++ token.text

end SurfaceReport
