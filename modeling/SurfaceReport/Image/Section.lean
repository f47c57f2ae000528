import SurfaceReport.Image.Number

/-!
# Sections of a file

A section is a stretch of a file that is to be loaded at an address. Two rules say where in the file
an address is found. The strict one takes the description of a section by its word. The other one is
that of a loader, which reads whole blocks and loads whole pages; it is used for the parts that the
directory leads to. The two agree on sections that begin where a block does.

A name that does not fit into the description of a section is kept elsewhere, and the description
has a slash and its place instead.
-/

namespace SurfaceReport

namespace Image

/-- The least multiple of a unit that is no smaller than a number. -/
def roundUp (unit n : Nat) : Nat := (n + unit - 1) / unit * unit

/-- Exactly one bit of a number is set. -/
def isPowerOfTwo (n : Nat) : Bool := n != 0 && n &&& (n - 1) == 0

/-- There is a text at an offset, which goes on to the next zero or to the end. -/
def isTextAt (file : ByteArray) (offset : Nat) : Bool :=
  offset < file.size &&
    (Utf8.text? ((file.extract offset file.size).toList.takeWhile (· != 0))).isSome

/-! ## Names -/

def slash : UInt8 := 0x2F

/-- May stand in front of a number. -/
def plus : UInt8 := 0x2B

def decimalDigits : List Char := "0123456789".toList

def base64Digits : List Char :=
  "ABCDEFGHIJKLMNOPQRSTUVWXYZabcdefghijklmnopqrstuvwxyz0123456789+/".toList

/-- The number that some digits spell, the most significant first. -/
def spelled? (digits : List Char) (bytes : Bytes) : Option Nat :=
  bytes.foldlM (fun value b => do
    return value * digits.length + (← digits.idxOf? (.ofNat b.toNat))) 0

/-- The number that some decimal digits spell, of which there is at least one. -/
def decimal? : Bytes → Option Nat
  | [] => none
  | b :: rest =>
    if b != plus then spelled? decimalDigits (b :: rest)
    else if rest.isEmpty then none
    else spelled? decimalDigits rest

/-- A name that stands elsewhere is there, behind the given offset. -/
def nameIsSound (file : ByteArray) (longNames : Nat) (name : Bytes) : Bool :=
  match name.takeWhile (· != 0) with
  | a :: rest =>
    if a != slash then true
    else
      let place? :=
        match rest with
        | b :: digits => if b = slash then spelled? base64Digits digits else decimal? rest
        | [] => none
      place?.any fun place => isTextAt file (longNames + place)
  | [] => true

/-! ## Addresses -/

/-- A stretch of the file with the address it is loaded at. -/
structure Section where
  address : Nat
  loadedSize : Nat
  offset : Nat
  size : Nat
  deriving DecidableEq, Repr, Inhabited

namespace Section

def descriptionSize : Nat := 40

def nameSize : Nat := 8

/-- The section that is described at an offset, whose name may have to be looked for behind another
offset. -/
def read? (file : ByteArray) (longNames offset : Nat) : Option Section := do
  let description ← stretch? file offset descriptionSize
  guard (nameIsSound file longNames (description.extract 0 nameSize).toList)
  return ⟨← word? description 12, ← word? description 8, ← word? description 20,
    ← word? description 16⟩

/-- The section is loaded at an address. What the file holds beyond the loaded size is not. -/
def holds (s : Section) (address : Nat) : Bool :=
  s.address ≤ address && address < s.address + s.loadedSize

/-- A section is read from the beginning of a block of this size. -/
def blockSize : Nat := 0x200

/-- A section is loaded up to the end of a page of this size. -/
def pageSize : Nat := 0x1000

/-- Where a loader begins to read. -/
def readOffset (s : Section) : Nat := s.offset / blockSize * blockSize

/-- How much a loader reads: the rest of the blocks that the section takes in the file, but no page
more than it fills, there or once it is loaded. -/
def readSize (s : Section) (alignment : Nat) : Nat :=
  let read := min (roundUp alignment (s.offset + s.size) - s.readOffset) (roundUp pageSize s.size)
  if s.loadedSize = 0 then read else min read (roundUp pageSize s.loadedSize)

/-- Where a loader finds an address that is in the section. -/
def place? (s : Section) (alignment address : Nat) : Option Nat :=
  if s.address ≤ address ∧ address < s.address + s.readSize alignment then
    some (s.readOffset + (address - s.address))
  else none

end Section

end Image

end SurfaceReport
