import SurfaceReport.Text.Utf8

/-!
# Numbers and stretches of an image

An image is a row of bytes in which almost everything is found by its offset. Every access says with
`none` that it would reach beyond the end, so that no other code has to compare an offset.
-/

namespace SurfaceReport

namespace Image

/-! ## At an offset -/

/-- The number that `width` bytes from an offset on spell, the least significant byte first. -/
def number? (bytes : ByteArray) (offset : Nat) : (width : Nat) → Option Nat
  | 0 => some 0
  | width + 1 => do
    let low ← bytes[offset]?
    let high ← number? bytes (offset + 1) width
    return low.toNat + 256 * high

def half? (bytes : ByteArray) (offset : Nat) : Option Nat := number? bytes offset 2

def word? (bytes : ByteArray) (offset : Nat) : Option Nat := number? bytes offset 4

def stretch? (bytes : ByteArray) (offset size : Nat) : Option ByteArray :=
  if offset + size ≤ bytes.size then some (bytes.extract offset (offset + size)) else none

/-- The bytes from an offset to the next zero, which has to be there. -/
def terminated? (bytes : ByteArray) (offset : Nat) : Option Bytes :=
  if h : offset < bytes.size then
    if bytes[offset] = 0 then some []
    else (terminated? bytes (offset + 1)).map (bytes[offset] :: ·)
  else none
termination_by bytes.size - offset

/-! ## At the front -/

/-- A compressed number off the front. The top bits of the first byte say how many bytes it takes:
one, two or four, the most significant first. -/
def compressed? : Bytes → Option (Nat × Bytes)
  | [] => none
  | a :: rest =>
    if a < 0x80 then some (a.toNat, rest)
    else if a < 0xC0 then
      match rest with
      | b :: rest => some (a.toNat % 64 * 256 + b.toNat, rest)
      | _ => none
    else if a < 0xE0 then
      match rest with
      | b :: c :: d :: rest =>
        some (((a.toNat % 32 * 256 + b.toNat) * 256 + c.toNat) * 256 + d.toNat, rest)
      | _ => none
    else none

/-- What is left behind a compressed number is less than there was. -/
theorem compressed?_length {bytes rest : Bytes} {value : Nat}
    (h : compressed? bytes = some (value, rest)) : rest.length < bytes.length := by
  unfold compressed? at h
  repeat' split at h
  all_goals
    cases h
  all_goals
    simp only [List.length_cons]
    omega

/-! ## Heaps -/

/-- The text at an index of a heap of texts. -/
def text? (heap : ByteArray) (index : Nat) : Option String := do
  Utf8.text? (← terminated? heap index)

/-- The bytes at an index of a heap of byte rows, each of which has its length in front. Index 0
stands for no bytes. -/
def blob? (heap : ByteArray) (index : Nat) : Option Bytes :=
  if index = 0 then some []
  else do
    let front := (heap.extract index (index + 4)).toList
    let (size, rest) ← compressed? front
    return (← stretch? heap (index + (front.length - rest.length)) size).toList

def identifierSize : Nat := 16

/-- There is an identifier at an index of a heap of unique identifiers, which are counted from 1. -/
def hasIdentifier (heap : ByteArray) (index : Nat) : Bool :=
  0 < index && identifierSize * index ≤ heap.size

end Image

end SurfaceReport
