import SurfaceReport.Report.Build

/-!
# Namespaces that an assembly exports

Instead of a report a user may ask for the namespaces of the exported types. They are found without
a look at any member, and printed as a header and one line each to a receiver of bytes that may
stop taking any.
-/

namespace SurfaceReport

/-! ## Discovery -/

/-- The elements of a sorted list, each once. -/
def distinct : List String → List String
  | [] => []
  | [x] => [x]
  | x :: y :: rest => if x == y then distinct (y :: rest) else x :: distinct (y :: rest)

/-- The namespaces of the types that are exported without a constraint, ascending and each once. The
global namespace has no name and is not listed. -/
def exportedNamespaces (modules : List Module) : List String :=
  let rule : ExportRule := {}
  let types := (modules.flatMap Module.types).filter fun t => !t.ns.isEmpty && rule.exportsType t
  distinct (Report.sortedBy id (types.map TypeDecl.ns))

def discoverNamespaces {σ : Type} (source : Source) : Recording σ (List String) := do
  return exportedNamespaces (← source.read)

/-! ## Listing -/

structure Receiver where
  /-- How many more bytes it takes; without a number it takes any. -/
  room : Option Nat := none
  flushFails : Bool := false
  received : ByteArray := .empty
  flushes : Nat := 0
  deriving Inhabited

namespace Receiver

/-- Takes as many of the bytes as there is room for, and fails if some are left. -/
def write (r : Receiver) (bytes : ByteArray) : Except Fault Unit × Receiver :=
  match r.room with
  | none => (.ok (), { r with received := r.received ++ bytes })
  | some room =>
    if bytes.size ≤ room then
      (.ok (), { r with room := some (room - bytes.size), received := r.received ++ bytes })
    else
      (.error (.io (.other "writer full")),
        { r with room := some 0, received := r.received ++ bytes.extract 0 room })

def flush (r : Receiver) : Except Fault Unit × Receiver :=
  (if r.flushFails then .error (.io (.other "flush failed")) else .ok (),
    { r with flushes := r.flushes + 1 })

/-- Writes texts one after the other, up to the first that fails. -/
def writeAll (r : Receiver) : List String → Except Fault Unit × Receiver
  | [] => (.ok (), r)
  | text :: rest =>
    match r.write text.toUTF8 with
    | (.ok (), r) => r.writeAll rest
    | failed => failed

end Receiver

def listingHeader : String := "Available namespaces:\n"

def listingLine (ns : String) : String := "- " ++ ns ++ "\n"

def listingLines (namespaces : List String) : List String :=
  listingHeader :: namespaces.map listingLine

/-- Prints a listing and, if all of it was taken, flushes. -/
def writeListing (r : Receiver) (namespaces : List String) : Except Fault Unit × Receiver :=
  match r.writeAll (listingLines namespaces) with
  | (.ok (), r) => r.flush
  | failed => failed

end SurfaceReport
