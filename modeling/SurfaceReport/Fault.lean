import SurfaceReport.Path
import SurfaceReport.Text.SystemError

/-!
# What can go wrong

Two faults are *fatal*: they end a run that has started. Once a run is under way every other fault
is folded into one of these two, so that whoever started the run has to tell only two cases apart.
The remaining two can happen only before a run starts.
-/

namespace SurfaceReport

/-! ## Refusals of the operating system -/

/-- Why reading or writing failed. -/
inductive IoCause where
  | system (number : Int32)
  | other (text : String)
  deriving DecidableEq, Repr, Inhabited

namespace IoCause

def noEntry : IoCause := .system 2

def notADirectory : IoCause := .system 20

def isADirectory : IoCause := .system 21

def noSpace : IoCause := .system 28

/-- A name or a path exceeds what the file system takes. -/
def nameTooLong : IoCause := .system 36

def message : IoCause → String
  | system number => SystemError.message number
  | other text => text

end IoCause

/-! ## Faults -/

inductive Fault where
  /-- There is no file at the path that was to be read. -/
  | fileNotFound (path : Path)
  /-- The file is no well-formed assembly. -/
  | invalidFormat
  /-- Any other failure while an assembly is read or a report is written. -/
  | unexpected (text : String)
  /-- A failure of the file system outside a run. -/
  | io (cause : IoCause)
  deriving DecidableEq, Repr, Inhabited

namespace Fault

def message : Fault → String
  | fileNotFound path => "File '" ++ path.shown ++ "' not found."
  | invalidFormat => "Invalid assembly format."
  | unexpected text => "Unexpected error: " ++ text
  | io cause => cause.message

/-- The fault is one that ends a run. -/
def isFatal : Fault → Bool
  | invalidFormat | unexpected _ => true
  | fileNotFound _ | io _ => false

/-- The fatal fault that a fault amounts to once a run is under way. -/
def toFatal : Fault → Fault
  | io cause => unexpected cause.message
  | fileNotFound path => unexpected ("file '" ++ path.shown ++ "' disappeared during the run")
  | fatal => fatal

end Fault

end SurfaceReport
