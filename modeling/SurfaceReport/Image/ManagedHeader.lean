import SurfaceReport.Image.Number

/-!
# The header of the managed part

Behind its own size and the version of the runtime that it wants, this header lists where the
managed part keeps what. Only the metadata has to be there. Some other parts may be missing, and
then they have neither address nor size; some are for uses that no image has any more. Of code that
is compiled in advance, nothing is asked.
-/

namespace SurfaceReport

namespace Image

/-! ## Parts of an image -/

/-- Where a part of an image is loaded, and how long it is. -/
structure Extent where
  address : Nat
  size : Nat
  deriving DecidableEq, Repr, Inhabited

namespace Extent

def read? (bytes : ByteArray) (offset : Nat) : Option Extent :=
  return ⟨← word? bytes offset, ← word? bytes (offset + 4)⟩

def isPresent (e : Extent) : Bool := e.address != 0 && e.size != 0

def isAbsent (e : Extent) : Bool := e.address == 0 && e.size == 0

end Extent

/-! ## The header -/

/-- What the header of the managed part says about the metadata. -/
structure ManagedHeader where
  metadata : Extent
  deriving DecidableEq, Repr, Inhabited

namespace ManagedHeader

/-- The size of the header, which it has to state. -/
def size : Nat := 72

/-- The latest version of the runtime. What stands behind its point does not matter. -/
def latestVersion : Nat := 10

/-- The flags that mean something take the lowest five bits. -/
def flagLimit : Nat := 0x20

/-- Offsets of the parts that may be missing: resources, the signature of the strong name, and the
table of entries for other code. -/
def optionalParts : List Nat := [24, 32, 48]

/-- Offsets of the parts that are always missing. -/
def unusedParts : List Nat := [40, 56]

def read? (header : ByteArray) : Option ManagedHeader := do
  guard (size ≤ header.size)
  guard ((← word? header 0) = size)
  let major ← half? header 4
  guard (0 < major ∧ major ≤ latestVersion)
  let metadata ← Extent.read? header 8
  guard metadata.isPresent
  guard ((← word? header 16) < flagLimit)
  guard ((← optionalParts.mapM (Extent.read? header)).all fun part =>
    part.isPresent || part.isAbsent)
  guard ((← unusedParts.mapM (Extent.read? header)).all Extent.isAbsent)
  return ⟨metadata⟩

end ManagedHeader

end Image

end SurfaceReport
