import SurfaceReport.Signature
import SurfaceReport.Image.Number
import SurfaceReport.Image.Schema

/-!
# Signatures as they are kept in an image

A field's signature is a mark and a type, a method's is a mark, the number of parameters, the result
and the parameters. A type is a code, which most types have to themselves, and what belongs to that
code. Modifiers may stand in front of a type; they are no part of it. How many types can be in each
other is limited, and so is every count.

An array of any shape is a code, the element type and the shape. The shape is read for the rank, but
the reading of a signature goes on right behind the element type, so that what follows an array is
read from the array's shape on. Only where a type is passed over to find such a shape does the
reading end where the type does, but for the function pointers in it.
-/

namespace SurfaceReport

namespace Image

/-- A reader takes something off the front of some bytes, or refuses them. -/
abbrev Reading (α : Type) := StateT Bytes Option α

namespace Reading

def bytes : Reading Bytes := get

def byte : Reading UInt8
  | [] => none
  | b :: rest => some (b, rest)

def number : Reading Nat := compressed?

def word : Reading UInt32 := return (← number).toUInt32

/-- The next compressed number, if it is no larger than a limit. -/
def countUpTo (limit : Nat) : Reading Nat := do
  let count ← number
  guard (count ≤ limit)
  return count

def times {α : Type} (read : Reading α) : (count : Nat) → Reading (List α)
  | 0 => return []
  | count + 1 => return (← read) :: (← times read count)

def isNext (expected : UInt8) : Reading Bool := return (← bytes).head? == some expected

/-- The next byte is this one, which is then passed over. -/
def skips (expected : UInt8) : Reading Bool := do
  if ← isNext expected then
    let _ ← byte
    return true
  else return false

end Reading

/-! ## Tokens and modifiers -/

def tokenOf (table : Table) (row : Nat) : Token :=
  ⟨(table.number * Table.rowLimit + row).toUInt32⟩

/-- The token of a type, compressed to a tag and the number of a row. -/
def typeToken : Reading Token := do
  let value ← Reading.number
  match Choice.typeDefOrRef.target? value with
  | some (table, row) => return tokenOf table row
  | none => failure

def requiredModifier : UInt8 := 0x1F

/-- A modifier that may be ignored. -/
def optionalModifier : UInt8 := 0x20

/-- Passes over modifiers, of which there are fewer than bytes. -/
def skipModifiers : (fuel : Nat) → Reading Unit
  | 0 => return
  | fuel + 1 => do
    if (← Reading.skips requiredModifier) || (← Reading.skips optionalModifier) then
      let _ ← typeToken
      skipModifiers fuel

/-- Passes over all modifiers at the front. -/
def modifiers : Reading Unit := do skipModifiers (← Reading.bytes).length

/-! ## Types -/

/-- The primitives that have a code of their own. -/
def primitiveOfCode? (code : UInt8) : Option Primitive :=
  match code.toNat with
  | 0x00 | 0x01 => some .void
  | 0x02 => some .boolean
  | 0x03 => some .char
  | 0x04 => some .int8
  | 0x05 => some .uint8
  | 0x06 => some .int16
  | 0x07 => some .uint16
  | 0x08 => some .int32
  | 0x09 => some .uint32
  | 0x0A => some .int64
  | 0x0B => some .uint64
  | 0x0C => some .float32
  | 0x0D => some .float64
  | 0x0E => some .string
  | 0x16 => some .typedReference
  | 0x18 => some .intPtr
  | 0x19 => some .uintPtr
  | 0x1C => some .object
  | _ => none

/-- The markers that have a code of their own: for something internal, for a modifier, and for the
end of the parameters that a method declares. -/
def markerOfCode? (code : UInt8) : Option Marker :=
  match code.toNat with
  | 0x21 => some .internal
  | 0x40 => some .modifier
  | 0x41 => some .sentinel
  | _ => none

/-- The kinds of named types, by their codes. -/
def kindOfCode? (code : UInt8) : Option TypeKind :=
  match code.toNat with
  | 0x11 => some .valueType
  | 0x12 => some .classType
  | _ => none

/-- The largest number of sizes in the shape of an array. -/
def sizeLimit : Nat := 32

/-- The shape of an array: the rank, and the sizes and lower bounds that are given. No dimension has
two bounds. -/
def arrayRank : Reading UInt32 := do
  let rank ← Reading.number
  let _ ← Reading.times Reading.number (← Reading.countUpTo sizeLimit)
  let _ ← Reading.times Reading.number (← Reading.countUpTo rank)
  return rank.toUInt32

/-- A type that is passed, and how. -/
structure Passed where
  type : Signature
  byReference : Bool := false
  deriving Repr, Inhabited

namespace Passed

def referenceMark : UInt8 := 0x10

/-- A result or a parameter: modifiers, perhaps a mark, and the type. -/
def read (type : Reading Signature) : Reading Passed := do
  modifiers
  let byReference ← Reading.skips referenceMark
  return ⟨← type, byReference⟩

/-- Passes over those that come up to the end or to a byte 0. Each takes a byte, so that there are
fewer than bytes. -/
def skipAll (type : Reading Signature) : (fuel : Nat) → Reading Unit
  | 0 => return
  | fuel + 1 => do
    if (← Reading.bytes).isEmpty || (← Reading.isNext 0) then return
    let _ ← read type
    skipAll type fuel

end Passed

/-- What a method takes and returns. -/
structure MethodSignature where
  convention : CallingConvention
  result : Passed
  /-- The parameters that the method declares. A caller may add more. -/
  parameters : List Passed
  deriving Repr, Inhabited

namespace MethodSignature

def genericBit : UInt8 := 0x10

/-- The convention that the low bits of a method's mark stand for. All but those of other code stand
for that of managed code. -/
def conventionOf (mark : UInt8) : CallingConvention :=
  match mark.toNat % 16 with
  | 1 => .cdecl
  | 2 => .stdcall
  | 3 => .thiscall
  | 4 => .fastcall
  | _ => .managed

/-- The mark between the parameters that a method declares and those that a caller adds. -/
def sentinel : UInt8 := 0x41

def genericLimit : Nat := 256

def parameterLimit : Nat := 1024

/-- The declared ones of several parameters. If a sentinel stands among them, those behind it are
added by a caller, and are passed over. -/
def declared (type : Reading Signature) : (count : Nat) → Reading (List Passed)
  | 0 => return []
  | count + 1 => do
    if ← Reading.skips sentinel then
      Passed.skipAll type (← Reading.bytes).length
      return []
    return (← Passed.read type) :: (← declared type count)

def read (type : Reading Signature) : Reading MethodSignature := do
  let mark ← Reading.byte
  if mark &&& genericBit ≠ 0 then
    let _ ← Reading.countUpTo genericLimit
  let count ← Reading.countUpTo parameterLimit
  let result ← Passed.read type
  return ⟨conventionOf mark, result, ← declared type count⟩

/-- A pointer to code with this signature. -/
def pointer (m : MethodSignature) : Signature :=
  .functionPointer m.convention m.parameters.length m.result.type

end MethodSignature

/-- How much can be left over at a time while a type is read, outside a type that a pointer to code
takes or gives back. -/
def roomLimit : Nat := 1000

/-- What is left of some room behind something that takes a part of it. -/
def roomBehind (taken room : Nat) : Reading Nat := do
  guard (taken ≤ room)
  return room - taken

/-- A type. No more types are in each other than there are bytes, as each takes one.

What is begun around a type is left over while that type is read, and needs room: something around
one type needs room for itself, and a generic type with arguments for itself and for each argument.
While it waits for its arguments, it has to have room for one thing more.

If the reading is to be `exact` it ends behind the type, also behind that of an array. -/
def readType : (fuel : Nat) → (room : Nat) → (exact : Bool) → Reading Signature
  | 0, _, _ => failure
  | fuel + 1, room, exact => do
    let inner : Reading Signature := do readType fuel (← roomBehind 1 room) exact
    let code ← Reading.byte
    if let some p := primitiveOfCode? code then return .primitive p
    else if let some m := markerOfCode? code then return .marker m
    else if let some kind := kindOfCode? code then return .named kind (← typeToken)
    else match code.toNat with
      | 0x0F => do
        modifiers
        return .pointer (← inner)
      | 0x10 => return .byRef (← inner)
      | 0x13 => return .typeParameter (← Reading.word)
      | 0x14 => do
        let start ← get
        let element ← inner
        let behind ← get
        if !exact then
          set start
          let _ ← readType fuel roomLimit true
        let rank ← arrayRank
        if !exact then set behind
        return .array element rank
      | 0x15 => do
        let some kind := kindOfCode? (← Reading.byte) | failure
        let base := .named kind (← typeToken)
        let count ← Reading.countUpTo MethodSignature.genericLimit
        guard (count ≠ 0 || !(← Reading.bytes).isEmpty)
        let argumentRoom ← roomBehind (count + 1) room
        let _ ← roomBehind 1 argumentRoom
        return .instantiation base (← Reading.times (readType fuel argumentRoom exact) count)
      | 0x1B => return (← MethodSignature.read (readType fuel roomLimit false)).pointer
      | 0x1D => do
        modifiers
        return .vector (← inner)
      | 0x1E => return .methodParameter (← Reading.word)
      | 0x1F => do
        let _ ← typeToken
        modifiers
        return .marker .requiredModifier
      | 0x20 => do
        let _ ← typeToken
        modifiers
        return .marker .optionalModifier
      | 0x45 => return .pinned (← inner)
      | _ => failure

/-- A type, wherever its reading may end. -/
def type : Reading Signature := do readType (← Reading.bytes).length roomLimit false

/-! ## Whole signatures -/

def fieldMark : UInt8 := 0x06

/-- A field's signature. Bytes that are left over say nothing. -/
def fieldSignature? (blob : Bytes) : Option Signature :=
  let read : Reading Signature := do
    guard ((← Reading.byte) = fieldMark)
    modifiers
    type
  read.run' blob

def methodSignature? (blob : Bytes) : Option MethodSignature :=
  (MethodSignature.read type).run' blob

def propertyBit : UInt8 := 0x08

/-- A property's signature: its type. The parameters of its accessors have to be readable too. -/
def propertySignature? (blob : Bytes) : Option Signature :=
  let read : Reading Signature := do
    guard ((← Reading.byte) &&& propertyBit ≠ 0)
    let count ← Reading.countUpTo MethodSignature.parameterLimit
    modifiers
    let result ← type
    let _ ← Reading.times (Passed.read type) count
    return result
  read.run' blob

/-- The signature of a type on its own. -/
def typeSignature? (blob : Bytes) : Option Signature :=
  let read : Reading Signature := do
    modifiers
    type
  read.run' blob

end Image

end SurfaceReport
