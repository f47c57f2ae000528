/-!
# Moments of local time

A moment is a date of the Gregorian calendar, carried on without end in both directions, and a time
of day. A leap second is kept at the second before it, as a nanosecond count of a whole second or
more. It need not end a minute: where an offset has seconds of its own, a leap second may follow any
second of local time.

Two texts are made from a moment: one that begins a line of a run log, and one that is part of a
log's file name. Both are written field by field, so that what a text tells apart can be read off
its fields.
-/

namespace SurfaceReport

/-! ## Calendar -/

/-- Every fourth year, but of the full centuries only every fourth. -/
def isLeapYear (year : Int) : Bool :=
  year % 4 = 0 && (year % 100 ≠ 0 || year % 400 = 0)

/-- The number of days of a month; no month outside 1 to 12 has any. -/
def daysInMonth (year : Int) (month : Nat) : Nat :=
  match month with
  | 1 | 3 | 5 | 7 | 8 | 10 | 12 => 31
  | 4 | 6 | 9 | 11 => 30
  | 2 => if isLeapYear year then 29 else 28
  | _ => 0

/-- The first and the last year that a date can be given in. -/
def yearBounds : Int × Int := (-262143, 262142)

structure Moment where
  year : Int
  month : Nat
  day : Nat
  hour : Nat
  minute : Nat
  second : Nat
  nanosecond : Nat := 0
  day_mem : 1 ≤ day ∧ day ≤ daysInMonth year month
  time_lt : hour < 24 ∧ minute < 60 ∧ second < 60
  nanosecond_lt : nanosecond < 2000000000
  deriving DecidableEq

namespace Moment

/-- The moment with the given fields, if they may be given. Given by its fields, a leap second has
to end a minute. -/
def ofFields? (year : Int) (month day hour minute second nanosecond : Nat) : Option Moment :=
  if h : (yearBounds.1 ≤ year ∧ year ≤ yearBounds.2) ∧ (1 ≤ day ∧ day ≤ daysInMonth year month) ∧
      (hour < 24 ∧ minute < 60 ∧ second < 60) ∧
      (nanosecond < 2000000000 ∧ (1000000000 ≤ nanosecond → second = 59)) then
    some ⟨year, month, day, hour, minute, second, nanosecond, h.2.1, h.2.2.1, h.2.2.2.1⟩
  else none

instance : Inhabited Moment :=
  ⟨1970, 1, 1, 0, 0, 0, 0, by decide, by decide, by decide⟩

/-! ## Texts -/

def padded (width n : Nat) : List Char :=
  let digits := Nat.toDigits 10 n
  List.replicate (width - digits.length) '0' ++ digits

/-- A year: four digits, with a sign in front of a year that is negative or needs more. -/
def yearText (year : Int) : List Char :=
  if year < 0 then '-' :: padded 4 year.natAbs
  else if 9999 < year then '+' :: padded 4 year.natAbs
  else padded 4 year.natAbs

/-- The second as a clock shows it: a leap second is one more than the second it is kept at. -/
def shownSecond (m : Moment) : Nat := m.second + m.nanosecond / 1000000000

/-- The text at the beginning of a log line. -/
def lineText (m : Moment) : List Char :=
  yearText m.year ++ '-' :: padded 2 m.month ++ '-' :: padded 2 m.day ++ ' ' :: padded 2 m.hour ++
    ':' :: padded 2 m.minute ++ ':' :: padded 2 m.shownSecond

/-- The text in the name of a log file. -/
def fileText (m : Moment) : List Char :=
  yearText m.year ++ padded 2 m.month ++ padded 2 m.day ++ '_' :: padded 2 m.hour ++
    padded 2 m.minute ++ padded 2 m.shownSecond

end Moment

end SurfaceReport
