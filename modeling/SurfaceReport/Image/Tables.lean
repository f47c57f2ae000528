import SurfaceReport.Image.Number
import SurfaceReport.Image.Schema

/-!
# The rows of the tables

The stream of tables begins with how wide the heap indexes are, which numbers are present and how
many rows each has; then come the rows, table by table in the order of the numbers, without a gap.
So the place of every row follows from what stands in front, and all tables have to be read to find
one. A number that stands for no table has room for its count, but no rows.
-/

namespace SurfaceReport

namespace Image

/-! ## Widths -/

/-- What the width of a column depends on. -/
structure Sizes where
  /-- The bits that say which heaps need indexes of four bytes. -/
  heapBits : Nat
  counts : List (Table × Nat)
  deriving Repr, Inhabited

namespace Sizes

def count (s : Sizes) (t : Table) : Nat := (s.counts.lookup t).getD 0

/-- The width of an index into the heap that one bit stands for. -/
def heapWidth (s : Sizes) (bit : Nat) : Nat := if s.heapBits.testBit bit then 4 else 2

/-- The width of a number of a row, next to the bits of a tag. -/
def rowWidth (s : Sizes) (tagBits : Nat) (tables : List Table) : Nat :=
  if tables.all fun t => s.count t < Nat.pow 2 (16 - tagBits) then 2 else 4

def width (s : Sizes) : Column → Nat
  | .bytes width => width
  | .text => s.heapWidth 0
  | .guid => s.heapWidth 1
  | .blob => s.heapWidth 2
  | .row table | .first table => s.rowWidth 0 [table]
  | .choice c => s.rowWidth c.tagBits (c.filterMap id)

end Sizes

/-! ## Rows -/

/-- The values of a row, column by column. -/
abbrev Row := List Nat

/-- A value can be in a column. The tag of a choice has to stand for a table. -/
def Column.accepts : Column → Nat → Bool
  | .choice c, value => (c.target? value).isSome
  | _, _ => true

/-- Every value of a row can be in its column. -/
def Table.accepts (t : Table) (row : Row) : Bool :=
  (t.columns.zip row).all fun (column, value) => column.accepts value

/-- The rows of all tables that an image has. -/
structure Tables where
  rows : List (Table × Array Row)
  deriving Repr, Inhabited

namespace Tables

def ofTable (ts : Tables) (t : Table) : Array Row := (ts.rows.lookup t).getD #[]

/-- The rows of a table, each of them if its values can be there. -/
def readable (ts : Tables) (t : Table) : Array (Option Row) :=
  (ts.ofTable t).map fun row => if t.accepts row then some row else none

/-- The values of columns of the given widths from an offset on, and the offset behind them. -/
def readRow? (stream : ByteArray) (offset : Nat) : (widths : List Nat) → Option (Row × Nat)
  | [] => some ([], offset)
  | width :: widths => do
    let value ← number? stream offset width
    let (rest, behind) ← readRow? stream (offset + width) widths
    return (value :: rest, behind)

/-- Several rows behind those that are read already, and the offset behind them. -/
def readRows? (stream : ByteArray) (widths : List Nat) (soFar : Array Row) (offset : Nat) :
    (count : Nat) → Option (Array Row × Nat)
  | 0 => some (soFar, offset)
  | count + 1 =>
    match readRow? stream offset widths with
    | none => none
    | some (row, behind) => readRows? stream widths (soFar.push row) behind count

/-- The rows of several tables one after the other. -/
def readTables? (stream : ByteArray) (sizes : Sizes) (offset : Nat) :
    List (Table × Nat) → Option (List (Table × Array Row))
  | [] => some []
  | (table, count) :: rest => do
    let (rows, behind) ← readRows? stream (table.columns.map sizes.width) #[] offset count
    return (table, rows) :: (← readTables? stream sizes behind rest)

/-- How many rows each of the given tables has, from an offset on. Tokens have to be able to tell
them apart. -/
def readCounts? (stream : ByteArray) (offset : Nat) : List Table → Option (List (Table × Nat))
  | [] => some []
  | table :: rest => do
    let count ← word? stream offset
    guard (count < Table.rowLimit)
    return (table, count) :: (← readCounts? stream (offset + 4) rest)

/-- The tables of a stream, of which there is at least one. -/
def read? (stream : ByteArray) : Option Tables := do
  let heapBits ← number? stream 6 1
  let present ← number? stream 8 8
  guard (present ≠ 0)
  let numbers := (List.range 64).filter present.testBit
  let counts ← readCounts? stream 24 (numbers.filterMap Table.ofNumber?)
  return ⟨← readTables? stream ⟨heapBits, counts⟩ (24 + 4 * numbers.length) counts⟩

end Tables

end Image

end SurfaceReport
