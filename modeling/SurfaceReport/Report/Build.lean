import SurfaceReport.Name
import SurfaceReport.ExportRule
import SurfaceReport.EventLog
import SurfaceReport.Report.Node

/-!
# From declarations to a report

The walk goes through the modules in their order and, in each, through the exported types sorted by
full name. A type contributes its exported fields sorted by name, then its exported methods sorted
by name; parameters stay in their order. All sorting is by code point, which is the order of the
encoded bytes, and keeps equal names in the order in which they were declared.

Every module, type, field and method is an event before anything is made of it, so that a receiver
that refuses an event stops the walk right there. The types that the rule rejects are diagnosed for
a whole module at once, before any of its types is walked.
-/

namespace SurfaceReport

/-- What a reader of an assembly offers: a name and modules, each of which may be out of reach. -/
structure Source where
  assemblyName : Except Fault String
  modules : Except Fault (List Module)
  /-- The diagnostics that reading the modules leaves, each time they are read. -/
  readingNotes : List String := []

namespace Source

/-- The source that offers a given name and given modules. -/
def ofModules (name : String) (modules : List Module) : Source :=
  ⟨.ok name, .ok modules, []⟩

def read {σ : Type} (source : Source) : Recording σ (List Module) := do
  Recording.diagnose source.readingNotes
  Recording.ofExcept source.modules

end Source

namespace Report

/-! ## Order -/

/-- The elements by ascending name; equal names stay in order. -/
def sortedBy {α : Type} (name : α → String) (xs : List α) : List α :=
  xs.mergeSort fun a b => decide (name a ≤ name b)

/-- The types that the rule exports, by full name. -/
def exportedTypes (rule : ExportRule) (m : Module) : List TypeDecl :=
  sortedBy TypeDecl.fullName (m.types.filter rule.exportsType)

def exportedFields (rule : ExportRule) (t : TypeDecl) : List Field :=
  sortedBy Field.name (t.fields.filter rule.exportsField)

def exportedMethods (rule : ExportRule) (t : TypeDecl) : List Method :=
  sortedBy Method.name (t.methods.filter rule.exportsMethod)

/-! ## Nodes -/

def parameterNode (p : Parameter) : Node :=
  ⟨"Parameter", [("Name", p.name), ("Type", displayName p.typeName)], []⟩

def fieldNode (f : Field) : Node :=
  ⟨"Field", [("Name", f.name), ("Type", displayName f.typeName)], []⟩

/-- The node of a method, with its parameters. -/
def methodNode (m : Method) : Node :=
  ⟨"Method", [("Name", m.name), ("ReturnType", displayName m.returnType)],
    m.parameters.map parameterNode⟩

/-- The node of a type, with the given members. -/
def typeNode (t : TypeDecl) (members : List Node) : Node :=
  ⟨"Type", [("Namespace", t.ns), ("FullName", t.fullName)], members⟩

/-- The root of a report, with the given types. -/
def rootNode (assemblyName : String) (types : List Node) : Node :=
  ⟨"Assembly", [("Name", assemblyName)], types⟩

/-! ## Events -/

def moduleEvent (m : Module) : Event := .info ("Processing module: " ++ m.name)

def typeEvent (t : TypeDecl) : Event := .info ("Processing type: " ++ t.fullName)

def fieldEvent (f : Field) : Event := .info ("Found public field: " ++ f.name)

def methodEvent (m : Method) : Event := .info ("Found public method: " ++ m.name)

/-- The diagnostics about the types of a module that the rule rejects, in their order. -/
def skippedTypes (rule : ExportRule) (m : Module) : List String :=
  (m.types.filter fun t => !rule.exportsType t).map fun t => "skipping type " ++ t.fullName

/-! ## The walk -/

variable {σ : Type} (sink : EventSink σ) (rule : ExportRule)

def walkField (f : Field) : Recording σ Node := do
  Recording.record sink (fieldEvent f)
  return fieldNode f

def walkMethod (m : Method) : Recording σ Node := do
  Recording.record sink (methodEvent m)
  return methodNode m

def walkType (t : TypeDecl) : Recording σ Node := do
  Recording.record sink (typeEvent t)
  let fields ← (exportedFields rule t).mapM (walkField sink)
  let methods ← (exportedMethods rule t).mapM (walkMethod sink)
  return typeNode t (fields ++ methods)

/-- Announces a module, diagnoses what is skipped, and walks its types. -/
def walkModule (m : Module) : Recording σ (List Node) := do
  Recording.record sink (moduleEvent m)
  Recording.diagnose (skippedTypes rule m)
  (exportedTypes rule m).mapM (walkType sink rule)

/-- The report of a source. The name is read before the modules are. -/
def build (source : Source) : Recording σ Node := do
  let name ← Recording.ofExcept source.assemblyName
  let modules ← source.read
  let types ← modules.mapM (walkModule sink rule)
  return rootNode name types.flatten

end Report

end SurfaceReport
