/-!
# Display names of declared types

A report shows `Int32` rather than `System.Int32`, and `List` rather than the name of a generic
instance with its arity and arguments. The short form is ambiguous on purpose: it is only ever
shown, never compared and never used to look anything up.

The reduction is two cuts on the characters of the name, each a function of its own, so that what
one cut keeps can be said without the other.
-/

namespace SurfaceReport

namespace Name

/-- Stands between a generic type's name and the number of its parameters. -/
def arityMarker : Char := '\x60'

/-- The characters before the first arity marker. A marker that begins the name cuts nothing, so
that a name is never emptied. -/
def cutArity : List Char → List Char
  | [] => []
  | c :: rest =>
    if c = arityMarker then c :: rest else c :: rest.takeWhile (· ≠ arityMarker)

/-- The characters after the last dot. A name without a dot, or with nothing after its last dot,
stays as it is. -/
def afterLastDot (name : List Char) : List Char :=
  match (name.reverse.takeWhile (· ≠ '.')).reverse with
  | [] => name
  | tail => tail

/-- The display form: without arity and arguments, then without what qualifies it. -/
def simplify (name : List Char) : List Char :=
  afterLastDot (cutArity name)

end Name

/-- The display form of a full type name. -/
def displayName (fullName : String) : String :=
  .ofList (Name.simplify fullName.toList)

end SurfaceReport
