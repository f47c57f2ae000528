import SurfaceReport.Image.ManagedHeader
import SurfaceReport.Image.Section

/-!
# The container of an image

An assembly is kept in a file of the general kind of executable files: two headers, a directory of
what the file holds, and sections. One entry of the directory leads to the header of the managed
part, and that to the metadata. The processor that the file is for is never looked at.
-/

namespace SurfaceReport

namespace Image

/-- The two kinds of executable files, by the size of an address in them. -/
inductive AddressKind where
  | short | long
  deriving DecidableEq, Repr, Inhabited

namespace AddressKind

/-- The kind that the mark of the second header stands for. -/
def ofMark? (mark : Nat) : Option AddressKind :=
  if mark = 0x10B then some short
  else if mark = 0x20B then some long
  else none

def size : AddressKind → Nat
  | short => 4
  | long => 8

/-- Where the second header says which address the file is meant to be loaded at. -/
def baseOffset : AddressKind → Nat
  | short => 28
  | long => 24

def directoryOffset : AddressKind → Nat
  | short => 96
  | long => 112

end AddressKind

/-- What the headers of a file say. -/
structure Container where
  file : ByteArray
  kind : AddressKind
  /-- The address that the file is meant to be loaded at. Other addresses count from here. -/
  base : Nat
  /-- The unit in which the file gives room to its sections. -/
  alignment : Nat
  sections : List Section
  directory : List Extent

namespace Container

/-- The number of the directory entry that leads to the header of the managed part. -/
def managedEntry : Nat := 14

/-- The most entries that a directory can have. -/
def entryLimit : Nat := 16

def symbolSize : Nat := 18

def firstHeaderSize : Nat := 0x40

/-- The headers of a file, the second of which begins behind the first. -/
def read? (file : ByteArray) : Option Container := do
  guard ((← half? file 0) = 0x5A4D)
  let headers ← word? file 0x3C
  guard (firstHeaderSize ≤ headers)
  guard ((← word? file headers) = 0x4550)
  let sectionCount ← half? file (headers + 6)
  let longNames := (← word? file (headers + 12)) + symbolSize * (← word? file (headers + 16))
  let optional := headers + 24
  let sections := optional + (← half? file (headers + 20))
  let kind ← AddressKind.ofMark? (← half? file optional)
  let directory := optional + kind.directoryOffset
  let entryCount ← word? file (directory - 4)
  guard (managedEntry < entryCount ∧ entryCount ≤ entryLimit)
  return {
    file
    kind
    base := ← number? file (optional + kind.baseOffset) kind.size
    alignment := ← word? file (optional + 36)
    sections := ← (List.range sectionCount).mapM fun i =>
      Section.read? file longNames (sections + Section.descriptionSize * i)
    directory := ← (List.range entryCount).mapM fun i => Extent.read? file (directory + 8 * i) }

/-- The directory entry with a number, if it leads anywhere. -/
def entry? (c : Container) (number : Nat) : Option Extent :=
  c.directory[number]?.filter fun entry => !entry.isAbsent

/-- The bytes of the file that are loaded in a part of the image. Only the beginning of the part is
looked for in the sections. -/
def part? (c : Container) (part : Extent) : Option ByteArray := do
  let s ← c.sections.find? (·.holds part.address)
  stretch? c.file (s.offset + (part.address - s.address)) part.size

/-- Where a loader finds an address in the file. -/
def place? (c : Container) (address : Nat) : Option Nat :=
  if isPowerOfTwo c.alignment then c.sections.findSome? (·.place? c.alignment address) else none

end Container

end Image

end SurfaceReport
