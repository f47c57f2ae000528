import SurfaceReport.Image.Tables

/-!
# Members by their owners

A row of an owner says where the owner's members begin in another table, and they go on to where
those of the next owner begin. Not every row of a table need be readable, and what cannot be read is
no member. So a table of members counts its readable rows, and bounds that do not fit that count
stand for no members at all; within bounds that fit, every single member has to be readable.
-/

namespace SurfaceReport

namespace Image

/-- The row with a number. Rows are counted from 1. -/
def rowAt? {α : Type} (rows : Array α) (number : Nat) : Option α :=
  if number = 0 then none else rows[number - 1]?

/-- A table of members, in which not every row need be readable. -/
structure MemberTable (α : Type) where
  rows : Array (Option α)
  /-- The numbers of the members, place by place. Without any, each place has its own row. -/
  pointers : Array Nat := #[]
  count : Nat := rows.countP Option.isSome
  count_eq : count = rows.countP Option.isSome := by rfl

namespace MemberTable

variable {α : Type} (t : MemberTable α)

def row? (number : Nat) : Option α := (rowAt? t.rows number).join

/-- The number of the row at a place, if there is a pointer to it or none is needed. -/
def numberAt? (place : Nat) : Option Nat :=
  if t.pointers.isEmpty then some place else rowAt? t.pointers place

/-- The member at a place, with the number of its row. -/
def memberAt? (place : Nat) : Option (Nat × α) := do
  let number ← t.numberAt? place
  return (number, ← t.row? number)

/-- An owner's bounds fit the table. -/
def fits (first behind : Nat) : Bool :=
  0 < first && first ≤ t.count && first ≤ behind && behind ≤ t.count + 1

/-- The members of an owner from their first place to that of the next owner's, or to the end. They
are none if the bounds do not fit, and unknown if one of them is not readable. -/
def between? (first : Nat) (next? : Option Nat) : Option (List (Nat × α)) :=
  let behind := next?.getD (t.count + 1)
  if t.fits first behind then (List.range' first (behind - first)).mapM t.memberAt? else some []

end MemberTable

end Image

end SurfaceReport
