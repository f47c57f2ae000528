import SurfaceReport.EventLog

/-!
# Configuration of a run

What one run needs to know, and the two places that follow from it: the report lies beside the
assembly, the run log in a directory of its own choice or beside the program. Both are named for the
assembly, the log also for the second in which the run started.
-/

namespace SurfaceReport

/-! ## Namespaces -/

/-- What a run does about namespaces. -/
inductive NamespaceChoice where
  | all
  | only (name : String)
  | discover
  deriving DecidableEq, Repr, Inhabited

namespace NamespaceChoice

/-- The value of the namespace option is missing, or is an option itself. -/
def isNoName (value : String) : Bool :=
  value.isEmpty || ['-', '-'].isPrefixOf value.toList

/-- The choice that the namespace option stands for. Without the option everything is exported; an
option without a name asks for the list. -/
def ofArgument : Option String → NamespaceChoice
  | none => all
  | some value => if isNoName value then discover else only value

/-- The namespace that a report is narrowed to. -/
def constraint? : NamespaceChoice → Option String
  | only name => some name
  | all | discover => none

def isDiscovery : NamespaceChoice → Bool
  | discover => true
  | all | only _ => false

end NamespaceChoice

/-! ## Places -/

structure RunConfig where
  assemblyPath : Path
  namespaces : NamespaceChoice := .all
  /-- Where run logs go, if not beside the program. -/
  logDirectory : Option Path := none
  deriving DecidableEq, Repr, Inhabited

namespace RunConfig

/-- Put behind the assembly's stem to name its report. -/
def reportSuffix : String := "_Export.xml"

/-- The assembly's file name without its extension, as it is shown. It is empty if the path has no
file name. -/
def assemblyStem (c : RunConfig) : String :=
  match c.assemblyPath.stem? with
  | none => ""
  | some stem => Utf8.shown stem

/-- Where the report is written: in the assembly's directory. -/
def outputPath (c : RunConfig) : Path :=
  (c.assemblyPath.parent?.getD ⟨[]⟩).join (.ofText (c.assemblyStem ++ reportSuffix))

/-- The name of the log of a run that started at a moment. -/
def logName (c : RunConfig) (started : Moment) : String :=
  c.assemblyStem ++ "_" ++ .ofList started.fileText ++ ".log"

/-- Where the log is written. The program's own directory is asked for only if no other directory
is configured. -/
def logPath (c : RunConfig) (programDirectory : Except IoCause Path) (started : Moment) :
    Except Fault Path := do
  let directory ← match c.logDirectory with
    | some directory => pure directory
    | none => programDirectory.mapError Fault.io
  return directory.join (.ofText (c.logName started))

end RunConfig

end SurfaceReport
