import SurfaceReport.Metadata

/-!
# Which declarations are exported

The rule that decides what reaches a report, optionally narrowed to one namespace. Each part looks
at one declaration alone, so that the rule can be applied to lists of declarations in any order.
-/

namespace SurfaceReport

/-- The name of the pseudo type that holds what a module declares outside any type. -/
def modulePseudoType : String := "_Module_"

/-- A method that a toolchain adds to every type. -/
def addedTypeAccessor : String := "get_Il2CppType"

structure ExportRule where
  /-- Only types of this namespace are exported, if there is one. -/
  constraint : Option String := none
  deriving DecidableEq, Repr, Inhabited

namespace ExportRule

/-- The rule for a namespace that a user asks for. The empty namespace asks for nothing. -/
def within (ns : Option String) : ExportRule :=
  ⟨ns.filter fun name => !name.isEmpty⟩

variable (rule : ExportRule)

/-- The type lies in the namespace that the rule is narrowed to. -/
def admitsNamespace (ns : String) : Bool :=
  match rule.constraint with
  | none => true
  | some wanted => ns == wanted

/-- A type is exported if it is public, declared by hand and in the wanted namespace. -/
def exportsType (t : TypeDecl) : Bool :=
  t.visibility == .isPublic && t.name != modulePseudoType && !t.isGenerated &&
    rule.admitsNamespace t.ns

/-- A field is exported if it is public and declared by hand. -/
def exportsField (_rule : ExportRule) (f : Field) : Bool :=
  f.visibility == .isPublic && !f.isBacking

/-- A method is exported if it is public, declared by hand and neither accessor nor constructor. -/
def exportsMethod (_rule : ExportRule) (m : Method) : Bool :=
  m.visibility == .isPublic && m.accessor == .ordinary && !m.isGenerated &&
    m.name != addedTypeAccessor

end ExportRule

end SurfaceReport
