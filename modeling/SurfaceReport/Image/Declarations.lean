import SurfaceReport.Image.Directory
import SurfaceReport.Image.MemberTable
import SurfaceReport.Image.ReadFault
import SurfaceReport.Image.RowCheck
import SurfaceReport.Image.SignatureBlob
import SurfaceReport.Image.Streams

/-!
# What the rows declare

The rows of the tables with their names and signatures in place of indexes, and with their members
in place of bounds. A row that refers to something that is not there, or whose signature cannot be
read, declares nothing; what it would have declared is left out, and so is every type of which a
member is left out. Only the rows of the module and of the assembly have to be readable.
-/

namespace SurfaceReport

namespace Image

/-! ## Declarations -/

structure TypeRefRow where
  ns : String
  name : String
  deriving Repr, Inhabited

structure FieldRow where
  flags : UInt32
  name : String
  signature : Signature
  deriving Repr, Inhabited

/-- What is said of a parameter besides its type. Number 0 is the result. -/
structure ParameterRow where
  number : UInt32
  name : String
  deriving Repr, Inhabited

structure MethodRow where
  flags : UInt32
  name : String
  signature : MethodSignature
  parameters : List ParameterRow
  deriving Repr, Inhabited

/-- A type that is declared here, with the numbers of its methods. -/
structure TypeDefRow where
  flags : UInt32
  ns : String
  name : String
  fields : List FieldRow
  methods : List (Nat × MethodRow)
  deriving Repr, Inhabited

/-- The numbers of properties of a type. -/
structure PropertyMapRow where
  type : Nat
  properties : List Nat
  deriving Repr, Inhabited

/-- What a method means to a property or an event. -/
structure SemanticsRow where
  meaning : Nat
  method : Nat
  owner : Option (Table × Nat)
  deriving Repr, Inhabited

structure NestedClassRow where
  nested : Nat
  enclosing : Nat
  deriving Repr, Inhabited

structure GenericParameterRow where
  position : UInt32
  owner : Option (Table × Nat)
  name : String
  deriving Repr, Inhabited

/-! ## Reading rows -/

section Rows

variable (s : Streams)

/-- An index of an identifier that may be missing. -/
def Streams.mayIdentify (index : Nat) : Bool := index == 0 || hasIdentifier s.identifiers index

/-- The name in a row of the module, which needs an identifier. -/
def moduleNameOf? : Row → Option String
  | [_, name, version, edit, baseEdit] => do
    guard (hasIdentifier s.identifiers version && s.mayIdentify edit && s.mayIdentify baseEdit)
    text? s.texts name
  | _ => none

/-- The name in a row of the assembly, which may have a key and a culture. -/
def assemblyNameOf? : Row → Option String
  | [_, _, _, _, _, _, key, name, culture] => do
    let _ ← s.blob? key
    guard (culture == 0 || (text? s.texts culture).isSome)
    text? s.texts name
  | _ => none

def TypeRefRow.ofRow? : Row → Option TypeRefRow
  | [_, name, ns] => return ⟨← text? s.texts ns, ← text? s.texts name⟩
  | _ => none

def typeSpec? : Row → Option Signature
  | [signature] => do typeSignature? (← s.blob? signature)
  | _ => none

def FieldRow.ofRow? : Row → Option FieldRow
  | [flags, name, signature] => do
    let signature ← fieldSignature? (← s.blob? signature)
    return ⟨flags.toUInt32, ← text? s.texts name, signature⟩
  | _ => none

def ParameterRow.ofRow? : Row → Option ParameterRow
  | [_, number, name] => return ⟨number.toUInt32, ← text? s.texts name⟩
  | _ => none

/-- A method, whose parameters go on to those of the next one. -/
def MethodRow.ofRow? (parameters : MemberTable ParameterRow) (next? : Option Row) :
    Row → Option MethodRow
  | [_, _, flags, name, signature, first] => do
    let signature ← methodSignature? (← s.blob? signature)
    let parameters ← parameters.between? first (next?.bind (·[5]?))
    return ⟨flags.toUInt32, ← text? s.texts name, signature, parameters.map (·.2)⟩
  | _ => none

/-- A type that is declared here, whose members go on to those of the next one. -/
def TypeDefRow.ofRow? (fields : MemberTable FieldRow) (methods : MemberTable MethodRow)
    (next? : Option Row) : Row → Option TypeDefRow
  | [flags, name, ns, _, firstField, firstMethod] => do
    let fields ← fields.between? firstField (next?.bind (·[4]?))
    let methods ← methods.between? firstMethod (next?.bind (·[5]?))
    return ⟨flags.toUInt32, ← text? s.texts ns, ← text? s.texts name, fields.map (·.2), methods⟩
  | _ => none

/-- The name of a property, whose signature has to be readable too. -/
def propertyName? : Row → Option String
  | [_, name, signature] => do
    let _ ← propertySignature? (← s.blob? signature)
    text? s.texts name
  | _ => none

/-- The properties of a type, which go on to those of the next one. -/
def PropertyMapRow.ofRow? (properties : MemberTable String) (next? : Option Row) :
    Row → Option PropertyMapRow
  | [type, first] => do
    let properties ← properties.between? first (next?.bind (·[1]?))
    return ⟨type, properties.map (·.1)⟩
  | _ => none

def SemanticsRow.ofRow? : Row → Option SemanticsRow
  | [meaning, method, owner] => some ⟨meaning, method, Choice.hasSemantics.target? owner⟩
  | _ => none

def NestedClassRow.ofRow? : Row → Option NestedClassRow
  | [nested, enclosing] => some ⟨nested, enclosing⟩
  | _ => none

def GenericParameterRow.ofRow? : Row → Option GenericParameterRow
  | [position, _, owner, name] =>
    return ⟨position.toUInt32, Choice.typeOrMethodDef.target? owner, ← text? s.texts name⟩
  | _ => none

end Rows

/-! ## All rows -/

/-- The rows of an image that a report can depend on. -/
structure Declarations where
  moduleName : String
  assemblyName? : Option String
  typeRefs : Array (Option TypeRefRow)
  typeDefs : Array (Option TypeDefRow)
  typeSpecs : Array (Option Signature)
  methods : MemberTable MethodRow
  propertyMaps : List PropertyMapRow
  semantics : List SemanticsRow
  nestedClasses : List NestedClassRow
  genericParameters : List GenericParameterRow

namespace Declarations

/-- The rows of a table as far as they can be read. -/
def rowsOf {α : Type} (ts : Tables) (t : Table) (ofRow? : Row → Option α) : Array (Option α) :=
  (ts.readable t).map (·.bind ofRow?)

/-- The row of an owner next to the row behind it, if there is one. Both have to be readable. -/
def besideNext? (row? : Option Row) (next? : Option (Option Row)) :
    Option (Row × Option Row) := do
  let row ← row?
  match next? with
  | none => return (row, none)
  | some next? => return (row, some (← next?))

/-- The rows of a table of owners as far as they can be read, each next to the row behind it. -/
def ownersOf {α : Type} (ts : Tables) (t : Table) (ofRow? : Option Row → Row → Option α) :
    Array (Option α) :=
  let rows := ts.readable t
  rows.mapIdx fun i row? =>
    (besideNext? row? rows[i + 1]?).bind fun (row, next?) => ofRow? next? row

/-- The readable rows of a table whose numbers do not matter. -/
def listOf {α : Type} (ts : Tables) (t : Table) (ofRow? : Row → Option α) : List α :=
  (rowsOf ts t ofRow?).toList.filterMap id

def pointersOf (ts : Tables) (t : Table) : Array Nat :=
  (ts.ofTable t).map fun row => row.headD 0

/-- The name of the assembly, if there is one. It is not looked for where no heap holds its key. -/
def assemblyOf? (s : Streams) (ts : Tables) : Option (Option String) :=
  match s.blobs?, (ts.ofTable .assembly)[0]? with
  | some _, some row => (assemblyNameOf? s row).map some
  | _, _ => some none

/-- The rows of tables, if those of the module and of the assembly can be read. -/
def ofTables? (s : Streams) (ts : Tables) : Option Declarations := do
  let moduleName ← (ts.ofTable .moduleInfo)[0]?.bind (moduleNameOf? s)
  let assemblyName? ← assemblyOf? s ts
  let fields : MemberTable FieldRow :=
    { rows := rowsOf ts .field (FieldRow.ofRow? s), pointers := pointersOf ts .fieldPtr }
  let parameters : MemberTable ParameterRow :=
    { rows := rowsOf ts .param (ParameterRow.ofRow? s), pointers := pointersOf ts .paramPtr }
  let methods : MemberTable MethodRow :=
    { rows := ownersOf ts .methodDef (MethodRow.ofRow? s parameters)
      pointers := pointersOf ts .methodPtr }
  let properties : MemberTable String :=
    { rows := rowsOf ts .property (propertyName? s), pointers := pointersOf ts .propertyPtr }
  let propertyMaps := ownersOf ts .propertyMap (PropertyMapRow.ofRow? properties)
  return {
    moduleName
    assemblyName?
    typeRefs := rowsOf ts .typeRef (TypeRefRow.ofRow? s)
    typeDefs := ownersOf ts .typeDef (TypeDefRow.ofRow? s fields methods)
    typeSpecs := rowsOf ts .typeSpec (typeSpec? s)
    methods
    propertyMaps := propertyMaps.toList.filterMap id
    semantics := listOf ts .methodSemantics SemanticsRow.ofRow?
    nestedClasses := listOf ts .nestedClass NestedClassRow.ofRow?
    genericParameters := listOf ts .genericParam (GenericParameterRow.ofRow? s) }

/-- What is read, or a fault about the part of the file that it should be read from. -/
def orMalformed {α : Type} (part : String) : Option α → Except ReadFault α
  | some result => .ok result
  | none => .error (.malformed part)

/-- The declarations of a file. The rows are checked before anything is made of them. -/
def read (file : ByteArray) : Except ReadFault Declarations := do
  let container ← orMalformed "headers" (Container.read? file)
  let metadata ← orMalformed "metadata" container.metadata?
  let streams ← orMalformed "streams" (Streams.read? metadata)
  let tables ← orMalformed "tables" (Tables.read? streams.tables)
  match RowCheck.failed streams tables with
  | [] => orMalformed "module" (ofTables? streams tables)
  | failed => throw (.failedChecks RowCheck.stage RowCheck.count (failed.map RowCheck.name))

end Declarations

end Image

end SurfaceReport
