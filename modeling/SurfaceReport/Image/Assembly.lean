import SurfaceReport.Metadata
import SurfaceReport.Report.Build
import SurfaceReport.Image.TypeName

/-!
# The declarations of an assembly, read from its image

An image is a source of one module. It offers the types that no other type encloses, with their
members in the order of their rows. Reading the module again leaves the same diagnostics again.
-/

namespace SurfaceReport

namespace Image

namespace Declarations

variable (d : Declarations)

/-! ## Accessors -/

/-- The meaning of a method that sets a property. -/
def setterMeaning : Nat := 1

/-- The meaning of a method that gets a property. -/
def getterMeaning : Nat := 2

def propertiesOf (type : Nat) : List Nat :=
  (d.propertyMaps.filter (·.type == type)).flatMap (·.properties)

/-- The first readable method with a meaning to a property. -/
def methodOf? (meaning property : Nat) : Option Token :=
  (d.semantics.find? fun row =>
    row.meaning == meaning && row.owner == some (.property, property) &&
      (d.methods.row? row.method).isSome).map fun row => tokenOf .methodDef row.method

/-- The accessors of the properties of a type. -/
def accessorsOf (type : Nat) : PropertyAccessors where
  getters := (d.propertiesOf type).filterMap (d.methodOf? getterMeaning)
  setters := (d.propertiesOf type).filterMap (d.methodOf? setterMeaning)

/-! ## Members -/

def fieldOf (scope : Scope) (row : FieldRow) : Field where
  name := row.name
  typeName := row.signature.fullName scope
  visibility := .ofMemberFlags row.flags

def methodOf (accessors : PropertyAccessors) (scope : Scope) (number : Nat) (row : MethodRow) :
    Method where
  name := row.name
  returnType := row.signature.result.type.passedName scope row.signature.result.byReference
  visibility := .ofMemberFlags row.flags
  accessor := accessors.kind row.name (tokenOf .methodDef number) row.flags
  parameters :=
    ((parameterNames (row.parameters.map fun parameter => (parameter.number, some parameter.name))
      row.signature.parameters.length).zip row.signature.parameters).map fun (name, passed) =>
        ⟨name, passed.type.passedName scope passed.byReference⟩

/-! ## Types -/

def typeAt (number : Nat) (row : TypeDefRow) : TypeDecl where
  ns := row.ns
  name := row.name
  visibility := .ofTypeFlags row.flags
  fields := row.fields.map (fieldOf (d.typeScope number))
  methods :=
    let accessors := d.accessorsOf number
    row.methods.map fun (method, row) => methodOf accessors (d.methodScope number method) method row

def methodNotes (scope : Scope) (row : MethodRow) : List String :=
  row.signature.result.type.notes scope ++
    row.signature.parameters.flatMap fun passed => passed.type.notes scope

def typeNotes (number : Nat) (row : TypeDefRow) : List String :=
  (row.fields.flatMap fun field => field.signature.notes (d.typeScope number)) ++
    row.methods.flatMap fun (method, row) => methodNotes (d.methodScope number method) row

/-- The types that are not nested in another, with the numbers of their rows. -/
def topLevelTypes : List (Nat × TypeDefRow) :=
  (d.typeDefs.toList.zipIdx 1).filterMap fun (row?, number) =>
    match row? with
    | some row => if isNestedFlags row.flags then none else some (number, row)
    | none => none

/-! ## The source -/

def readingNotes : List String :=
  (d.topLevelTypes.flatMap fun (number, row) => d.typeNotes number row) ++
    ["read " ++ toString d.topLevelTypes.length ++ " top-level types from module '" ++
      d.moduleName ++ "'"]

/-- The declarations as a source. An image without an assembly is a mere module. -/
def source : Source where
  assemblyName :=
    match d.assemblyName? with
    | some name => .ok name
    | none => .error .invalidFormat
  modules := .ok [⟨d.moduleName, d.topLevelTypes.map fun (number, row) => d.typeAt number row⟩]
  readingNotes := d.readingNotes

end Declarations

/-- The assembly in a file. -/
def readAssembly (file : ByteArray) : Except Fault Source :=
  ((Declarations.read file).mapError ReadFault.toFault).map Declarations.source

end Image

end SurfaceReport
