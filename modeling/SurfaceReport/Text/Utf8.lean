/-!
# Bytes shown as text

A path or a stream may hold bytes that are not UTF-8. Shown as text, every maximal beginning of an
encoded character that does not go on as one is replaced by one U+FFFD, and so is every byte that
begins no character.

The rule is split in two: `tailRanges` is the table of what may follow a lead byte, and `step`
takes one character, whole or broken, off a list of bytes.
-/

namespace SurfaceReport

/-- Text as its bytes, in whatever encoding. -/
abbrev Bytes := List UInt8

namespace Utf8

/-- The ranges that the bytes after a lead byte have to lie in, one range for each byte. A byte
that leads no character has none. -/
def tailRanges (lead : UInt8) : Option (List (UInt8 × UInt8)) :=
  let any : UInt8 × UInt8 := (0x80, 0xBF)
  if lead < 0x80 then some []
  else if lead < 0xC2 then none
  else if lead < 0xE0 then some [any]
  else if lead = 0xE0 then some [(0xA0, 0xBF), any]
  else if lead = 0xED then some [(0x80, 0x9F), any]
  else if lead < 0xF0 then some [any, any]
  else if lead = 0xF0 then some [(0x90, 0xBF), any, any]
  else if lead < 0xF4 then some [any, any, any]
  else if lead = 0xF4 then some [(0x80, 0x8F), any, any]
  else none

/-- How many of the bytes, from the first, lie in their ranges. -/
def matching : List (UInt8 × UInt8) → Bytes → Nat
  | (low, high) :: ranges, b :: rest =>
    if low ≤ b ∧ b ≤ high then matching ranges rest + 1 else 0
  | _, _ => 0

/-- The bits of a lead byte that belong to the character, when `tails` bytes follow. -/
def leadBits (tails : Nat) (lead : UInt8) : Nat :=
  match tails with
  | 0 => lead.toNat
  | 1 => lead.toNat % 32
  | 2 => lead.toNat % 16
  | _ => lead.toNat % 8

/-- The character of a lead byte and the bytes that follow it. -/
def assemble (lead : UInt8) (tail : Bytes) : Char :=
  .ofNat (tail.foldl (fun value b => value * 64 + b.toNat % 64) (leadBits tail.length lead))

/-- Stands for bytes that are no character. -/
def replacement : Char := '\uFFFD'

/-- One character off the front: the character, and how many bytes behind the lead byte it takes.
A broken one takes the bytes that could have gone on. -/
def step (lead : UInt8) (rest : Bytes) : Char × Nat :=
  match tailRanges lead with
  | none => (replacement, 0)
  | some ranges =>
    let taken := matching ranges rest
    if taken = ranges.length then (assemble lead (rest.take taken), taken)
    else (replacement, taken)

/-- The characters of some bytes, with U+FFFD for each broken one. -/
def decode : Bytes → List Char
  | [] => []
  | lead :: rest => (step lead rest).1 :: decode (rest.drop (step lead rest).2)
termination_by bytes => bytes.length
decreasing_by simp only [List.length_drop, List.length_cons]; omega

def encode (text : String) : Bytes :=
  text.toUTF8.toList

/-- Some bytes as a text to be shown. -/
def shown (bytes : Bytes) : String :=
  .ofList (decode bytes)

/-- The text that some bytes encode, if they encode one. -/
def text? (bytes : Bytes) : Option String :=
  String.fromUTF8? ⟨bytes.toArray⟩

end Utf8

end SurfaceReport
