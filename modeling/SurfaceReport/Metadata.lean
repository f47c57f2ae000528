/-!
# What is declared in an assembly

An owned snapshot of the declarations that a report is made from: modules, their types, and each
type's fields and methods. Where a snapshot comes from is not decided here; `Source` says what a
reader of assemblies has to offer.
-/

namespace SurfaceReport

/-! ## Access levels -/

inductive Visibility where
  | isPublic
  | isInternal
  | isProtected
  | protectedInternal
  | privateProtected
  | isPrivate
  | compilerControlled
  deriving DecidableEq, Repr, Inhabited

namespace Visibility

def all : List Visibility :=
  [isPublic, isInternal, isProtected, protectedInternal, privateProtected, isPrivate,
    compilerControlled]

def name : Visibility → String
  | isPublic => "public"
  | isInternal => "internal"
  | isProtected => "protected"
  | protectedInternal => "protected_internal"
  | privateProtected => "private_protected"
  | isPrivate => "private"
  | compilerControlled => "compiler_controlled"

def ofName? (text : String) : Option Visibility :=
  all.find? (·.name == text)

/-- The access level of a field or method, from the low three bits of its attribute word. -/
def ofMemberFlags (flags : UInt32) : Visibility :=
  match (flags &&& 7).toNat with
  | 0 => compilerControlled
  | 1 => isPrivate
  | 2 => privateProtected
  | 3 => isInternal
  | 4 => isProtected
  | 5 => protectedInternal
  | _ => isPublic

/-- The access level of a type, from the low three bits of its attribute word. Only the value 1
is public: a nested type is reached through its enclosing type and is never public by itself. -/
def ofTypeFlags (flags : UInt32) : Visibility :=
  match (flags &&& 7).toNat with
  | 1 => isPublic
  | 3 => isPrivate
  | 4 => isProtected
  | 6 => privateProtected
  | 7 => protectedInternal
  | _ => isInternal

end Visibility

/-- The attribute word of a type says whether it is nested: nested visibilities start at 2. -/
def isNestedFlags (typeFlags : UInt32) : Bool :=
  2 ≤ (typeFlags &&& 7).toNat

/-! ## Methods that a compiler makes -/

/-- Tells an ordinary method from the ones that belong to a property or construct an object. -/
inductive Accessor where
  | ordinary
  | getter
  | setter
  | constructor
  deriving DecidableEq, Repr, Inhabited

namespace Accessor

def all : List Accessor := [ordinary, getter, setter, constructor]

def name : Accessor → String
  | ordinary => "none"
  | getter => "getter"
  | setter => "setter"
  | constructor => "constructor"

def ofName? (text : String) : Option Accessor :=
  all.find? (·.name == text)

end Accessor

/-! ## Declarations -/

/-- A compiler begins the names it makes up with this character. -/
def generatedMark : Char := '<'

/-- A compiler marks the storage of an automatic property with this text. -/
def backingMark : String := "k__BackingField"

/-- Whether `part` stands somewhere in `text`. -/
def occursIn (part : List Char) : List Char → Bool
  | [] => part.isEmpty
  | c :: rest => part.isPrefixOf (c :: rest) || occursIn part rest

structure Parameter where
  /-- Empty if the declaration has none. -/
  name : String
  typeName : String
  deriving DecidableEq, Repr, Inhabited

structure Field where
  name : String
  typeName : String
  visibility : Visibility := .isPublic
  deriving DecidableEq, Repr, Inhabited

/-- The field stores an automatic property's value. -/
def Field.isBacking (f : Field) : Bool :=
  occursIn backingMark.toList f.name.toList

structure Method where
  name : String
  returnType : String
  visibility : Visibility := .isPublic
  accessor : Accessor := .ordinary
  parameters : List Parameter := []
  deriving DecidableEq, Repr, Inhabited

def Method.isGenerated (m : Method) : Bool :=
  m.name.toList.head? == some generatedMark

/-- A type with its members, in no particular order. -/
structure TypeDecl where
  /-- Empty in the global namespace. -/
  ns : String
  name : String
  visibility : Visibility := .isPublic
  fields : List Field := []
  methods : List Method := []
  deriving DecidableEq, Repr, Inhabited

namespace TypeDecl

/-- The name, behind its namespace and a dot if it has a namespace. -/
def fullName (t : TypeDecl) : String :=
  if t.ns.isEmpty then t.name else t.ns ++ "." ++ t.name

def isGenerated (t : TypeDecl) : Bool :=
  t.name.toList.head? == some generatedMark

end TypeDecl

/-- A module and the types it defines, in no particular order. -/
structure Module where
  name : String
  types : List TypeDecl := []
  deriving DecidableEq, Repr, Inhabited

end SurfaceReport
