import SurfaceReport.Text.Utf8

/-!
# Text in units of two bytes

Most characters are one unit of two bytes, the lower byte first. The others are two units, one of
each of two kinds that are kept for this: a *leading* one and a *trailing* one. A row of units is a
text if every leading unit has a trailing one behind it and no trailing one stands elsewhere.
-/

namespace SurfaceReport

namespace Utf16

/-- The units that some bytes are made of. A byte that is left over makes none. -/
def units : Bytes → List Nat
  | low :: high :: rest => (low.toNat + 256 * high.toNat) :: units rest
  | _ => []

def isLeading (unit : Nat) : Bool := 0xD800 ≤ unit && unit < 0xDC00

def isTrailing (unit : Nat) : Bool := 0xDC00 ≤ unit && unit < 0xE000

/-- Some units are a text, behind a unit that is the first of two or is not. -/
def isTextBehind (leading : Bool) : List Nat → Bool
  | [] => !leading
  | unit :: rest => isTrailing unit == leading && isTextBehind (isLeading unit) rest

/-- Some bytes are a text. -/
def isText (bytes : Bytes) : Bool := isTextBehind false (units bytes)

end Utf16

end SurfaceReport
