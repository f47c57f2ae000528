/-!
# The tables of metadata

Everything that metadata declares is a row of a numbered table, and every table has its columns. A
column is a number, an index into a heap, or the number of a row: of one given table, or of one of
several, and then the low bits say which.

How wide an index is depends on how much there is to be told apart, and so on the image; which
columns there are does not.
-/

namespace SurfaceReport

namespace Image

/-! ## Tables -/

/-- The tables, in the order of their numbers. -/
inductive Table where
  | moduleInfo | typeRef | typeDef | fieldPtr | field | methodPtr | methodDef | paramPtr | param
  | interfaceImpl | memberRef | constant | customAttribute | fieldMarshal | declSecurity
  | classLayout | fieldLayout | standAloneSig | eventMap | eventPtr | event | propertyMap
  | propertyPtr | property | methodSemantics | methodImpl | moduleRef | typeSpec | implMap
  | fieldRva | editLog | editMap | assembly | assemblyProcessor | assemblyOs | assemblyRef
  | assemblyRefProcessor | assemblyRefOs | file | exportedType | manifestResource | nestedClass
  | genericParam | methodSpec | genericParamConstraint
  | document | methodDebugInfo | localScope | localVariable | localConstant | importScope
  | stateMachineMethod | customDebugInfo
  deriving DecidableEq, Repr, Inhabited

namespace Table

/-- The tables of programs, which are numbered from 0. -/
def ofPrograms : List Table :=
  [moduleInfo, typeRef, typeDef, fieldPtr, field, methodPtr, methodDef, paramPtr, param,
    interfaceImpl, memberRef, constant, customAttribute, fieldMarshal, declSecurity, classLayout,
    fieldLayout, standAloneSig, eventMap, eventPtr, event, propertyMap, propertyPtr, property,
    methodSemantics, methodImpl, moduleRef, typeSpec, implMap, fieldRva, editLog, editMap, assembly,
    assemblyProcessor, assemblyOs, assemblyRef, assemblyRefProcessor, assemblyRefOs, file,
    exportedType, manifestResource, nestedClass, genericParam, methodSpec, genericParamConstraint]

/-- The tables for debugging, which come last. -/
def ofDebugging : List Table :=
  [document, methodDebugInfo, localScope, localVariable, localConstant, importScope,
    stateMachineMethod, customDebugInfo]

/-- The tables at their numbers. Three numbers between the two kinds stand for none. -/
def numbered : List (Option Table) :=
  ofPrograms.map some ++ [none, none, none] ++ ofDebugging.map some

def number (t : Table) : Nat := numbered.idxOf (some t)

def ofNumber? (number : Nat) : Option Table := numbered[number]?.join

/-- The numbers of rows are below this. A token holds one behind the number of its table. -/
def rowLimit : Nat := 0x1000000

end Table

/-! ## Choices of tables -/

/-- Several tables that a column can refer to, at the place that their tag says. A tag may stand for
no table. -/
abbrev Choice := List (Option Table)

namespace Choice

/-- How many bits tell the tables of a choice apart. -/
def tagBits (tables : Choice) : Nat := Nat.log2 (tables.length - 1) + 1

/-- How many tags those bits can hold. -/
def tagCount (tables : Choice) : Nat := Nat.pow 2 tables.tagBits

/-- The table and the row that a value of the column refers to. Row 0 is none. -/
def target? (tables : Choice) (value : Nat) : Option (Table × Nat) := do
  let table ← tables[value % tables.tagCount]?
  return (← table, value / tables.tagCount)

/-- A type, wherever it is declared. -/
def typeDefOrRef : Choice := [some .typeDef, some .typeRef, some .typeSpec]

def hasConstant : Choice := [some .field, some .param, some .property]

/-- What custom attributes are put on. -/
def hasCustomAttribute : Choice :=
  [some .methodDef, some .field, some .typeRef, some .typeDef, some .param, some .interfaceImpl,
    some .memberRef, some .moduleInfo, some .declSecurity, some .property, some .event,
    some .standAloneSig, some .moduleRef, some .typeSpec, some .assembly, some .assemblyRef,
    some .file, some .exportedType, some .manifestResource, some .genericParam,
    some .genericParamConstraint, some .methodSpec]

/-- What custom debugging information is about. -/
def hasCustomDebugInfo : Choice :=
  hasCustomAttribute ++
    [some .document, some .localScope, some .localVariable, some .localConstant, some .importScope]

def hasFieldMarshal : Choice := [some .field, some .param]

def hasDeclSecurity : Choice := [some .typeDef, some .methodDef, some .assembly]

/-- What a member that is declared elsewhere belongs to. -/
def memberRefParent : Choice :=
  [some .typeDef, some .typeRef, some .moduleRef, some .methodDef, some .typeSpec]

def hasSemantics : Choice := [some .event, some .property]

/-- A method, wherever it is declared. -/
def methodDefOrRef : Choice := [some .methodDef, some .memberRef]

def memberForwarded : Choice := [some .field, some .methodDef]

def implementation : Choice := [some .file, some .assemblyRef, some .exportedType]

def customAttributeType : Choice := [none, none, some .methodDef, some .memberRef, none]

/-- Where a type that is declared elsewhere is found. -/
def resolutionScope : Choice :=
  [some .moduleInfo, some .moduleRef, some .assemblyRef, some .typeRef]

def typeOrMethodDef : Choice := [some .typeDef, some .methodDef]

end Choice

/-! ## Columns -/

/-- What a column holds. -/
inductive Column where
  | bytes (width : Nat)
  | text
  | guid
  | blob
  /-- The number of a row, counted from 1. -/
  | row (table : Table)
  /-- The number of the row where those that belong to this row begin. -/
  | first (table : Table)
  /-- The number of a row behind the tag of its table. -/
  | choice (c : Choice)
  deriving DecidableEq, Repr, Inhabited

open Column in
def Table.columns : Table → List Column
  | moduleInfo => [bytes 2, text, guid, guid, guid]
  | typeRef => [choice .resolutionScope, text, text]
  | typeDef => [bytes 4, text, text, choice .typeDefOrRef, first field, first methodDef]
  | fieldPtr => [row field]
  | field => [bytes 2, text, blob]
  | methodPtr => [row methodDef]
  | methodDef => [bytes 4, bytes 2, bytes 2, text, blob, first param]
  | paramPtr => [row param]
  | param => [bytes 2, bytes 2, text]
  | interfaceImpl => [row typeDef, choice .typeDefOrRef]
  | memberRef => [choice .memberRefParent, text, blob]
  | constant => [bytes 2, choice .hasConstant, blob]
  | customAttribute => [choice .hasCustomAttribute, choice .customAttributeType, blob]
  | fieldMarshal => [choice .hasFieldMarshal, blob]
  | declSecurity => [bytes 2, choice .hasDeclSecurity, blob]
  | classLayout => [bytes 2, bytes 4, row typeDef]
  | fieldLayout => [bytes 4, row field]
  | standAloneSig => [blob]
  | eventMap => [row typeDef, first event]
  | eventPtr => [row event]
  | event => [bytes 2, text, choice .typeDefOrRef]
  | propertyMap => [row typeDef, first property]
  | propertyPtr => [row property]
  | property => [bytes 2, text, blob]
  | methodSemantics => [bytes 2, row methodDef, choice .hasSemantics]
  | methodImpl => [row typeDef, choice .methodDefOrRef, choice .methodDefOrRef]
  | moduleRef => [text]
  | typeSpec => [blob]
  | implMap => [bytes 2, choice .memberForwarded, text, row moduleRef]
  | fieldRva => [bytes 4, row field]
  | editLog => [bytes 4, bytes 4]
  | editMap => [bytes 4]
  | assembly => [bytes 4, bytes 2, bytes 2, bytes 2, bytes 2, bytes 4, blob, text, text]
  | assemblyProcessor => [bytes 4]
  | assemblyOs => [bytes 4, bytes 4, bytes 4]
  | assemblyRef => [bytes 2, bytes 2, bytes 2, bytes 2, bytes 4, blob, text, text, blob]
  | assemblyRefProcessor => [bytes 4, row assemblyRef]
  | assemblyRefOs => [bytes 4, bytes 4, bytes 4, row assemblyRef]
  | file => [bytes 4, text, blob]
  | exportedType => [bytes 4, bytes 4, text, text, choice .implementation]
  | manifestResource => [bytes 4, bytes 4, text, choice .implementation]
  | nestedClass => [row typeDef, row typeDef]
  | genericParam => [bytes 2, bytes 2, choice .typeOrMethodDef, text]
  | methodSpec => [choice .methodDefOrRef, blob]
  | genericParamConstraint => [row genericParam, choice .typeDefOrRef]
  | document => [blob, guid, blob, guid]
  | methodDebugInfo => [row document, blob]
  | localScope =>
    [row methodDef, row importScope, first localVariable, first localConstant, bytes 4, bytes 4]
  | localVariable => [bytes 2, bytes 2, text]
  | localConstant => [text, blob]
  | importScope => [row importScope, blob]
  | stateMachineMethod => [row methodDef, row methodDef]
  | customDebugInfo => [choice .hasCustomDebugInfo, guid, blob]

end Image

end SurfaceReport
