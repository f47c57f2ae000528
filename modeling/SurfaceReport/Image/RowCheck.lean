import SurfaceReport.Image.Literals
import SurfaceReport.Image.SignatureBlob
import SurfaceReport.Image.Streams
import SurfaceReport.Image.Tables

/-!
# Checks of the rows as they are written

Before anything is made of the rows, they are checked by themselves: what they refer to has to be
there, there has to be a module and at most one assembly, the heaps have to be filled up, signatures
have to begin as their kind asks, and generic parameters and their constraints have to make sense.
What a name says does not matter here, so that an index other than 0 always names something.
-/

namespace SurfaceReport

namespace Image

/-- A check that rows can fail. -/
inductive RowCheck where
  | tokens | tables | heaps | signatures | genericConstraints
  deriving DecidableEq, Repr, Inhabited

namespace RowCheck

def all : List RowCheck := [tokens, tables, heaps, signatures, genericConstraints]

def name : RowCheck → String
  | tokens => "RawTokenValidator"
  | tables => "RawTableValidator"
  | heaps => "RawHeapValidator"
  | signatures => "RawSignatureValidator"
  | genericConstraints => "RawGenericConstraintValidator"

def stage : Nat := 2

/-- How many checks the stage has, with those that no image fails. -/
def count : Nat := 6

/-! ## Rows that refer to others -/

/-- The row that a column refers to is there, if it refers to one. -/
def refersToRow (ts : Tables) : Column → Nat → Bool
  | .row table, number => number ≤ (ts.ofTable table).size
  | .choice c, value =>
    match c.target? value with
    | some (table, number) => number ≤ (ts.ofTable table).size
    | none => true
  | _, _ => true

/-- All rows that a row refers to are there. -/
def rowRefersToRows (ts : Tables) (t : Table) (row : Row) : Bool :=
  (t.columns.zip row).all fun (column, value) => refersToRow ts column value

/-- The tables whose rows may refer to what is not there. They add to what other rows declare, and
what they would add to nothing is lost. -/
def freeTables : List Table := [.eventMap, .event, .propertyMap, .methodSemantics]

/-- All rows of a table refer to rows that are there, unless they need not. -/
def tableRefersToRows (ts : Tables) (t : Table) (rows : Array Row) : Bool :=
  freeTables.contains t || rows.all (rowRefersToRows ts t)

/-- What belongs to a row begins no later than right behind the last row. In a table without rows,
nothing begins anywhere. -/
def beginsInTable (ts : Tables) : Column → Nat → Bool
  | .first table, number =>
    (ts.ofTable table).isEmpty || number ≤ (ts.ofTable table).size + 1
  | _, _ => true

/-- The members of a type begin in their tables. -/
def membersBegin (ts : Tables) (row : Row) : Bool :=
  (Table.columns .typeDef |>.zip row).all fun (column, value) => beginsInTable ts column value

/-! ## Nested types -/

/-- The types that are nested, each with the one it is nested in. -/
def nestings (ts : Tables) : List (Nat × Nat) :=
  (ts.ofTable .nestedClass).toList.filterMap fun
    | [nested, enclosing] => some (nested, enclosing)
    | _ => none

/-- Going from a type to the one around it, and so on, comes to an end within some steps. -/
def endsWithin (nestings : List (Nat × Nat)) (type : Nat) : (steps : Nat) → Bool
  | 0 => false
  | steps + 1 =>
    match nestings.lookup type with
    | none => true
    | some enclosing => endsWithin nestings enclosing steps

/-- Both types of every nesting are some type, and none is nested in itself, however far inside. A
way that is longer than there are nestings has passed a type twice, and never ends. -/
def nestingsAreSound (nestings : List (Nat × Nat)) : Bool :=
  nestings.all fun (nested, enclosing) =>
    nested != 0 && enclosing != 0 && endsWithin nestings nested (nestings.length + 1)

/-! ## Heaps -/

def isFilled (unit : Nat) (heap : ByteArray) : Bool := heap.size % unit == 0

/-- All heaps are filled up, and literals are texts. -/
def heapsAreSound (s : Streams) : Bool :=
  isFilled 4 s.texts && isFilled 4 s.literals && s.blobs?.all (isFilled 4) &&
    isFilled identifierSize s.identifiers && (literals s.literals.toList).all Utf16.isText

/-! ## Signatures -/

/-- The tables whose rows have signatures, with the places of their columns. -/
def signatureColumns : List (Table × Nat) :=
  [(.field, 2), (.methodDef, 4), (.memberRef, 2), (.standAloneSig, 0), (.property, 2),
    (.typeSpec, 0), (.methodSpec, 1)]

def kindOf (mark : UInt8) : Nat := mark.toNat % 16

/-- The kinds that a mark can stand for, but for that of generic arguments, are below this. -/
def methodKindLimit : Nat := 10

/-- The mark that signatures in a table begin with, if they have one. -/
def marksWell (t : Table) (mark : UInt8) : Bool :=
  match t with
  | .field => mark == fieldMark
  | .methodDef => kindOf mark < methodKindLimit
  | .property => kindOf mark == propertyBit.toNat
  | _ => true

/-- The tables whose signatures have a mark, which something else has to follow. -/
def markedTables : List Table := [.field, .methodDef, .property]

/-- The signatures in a table can begin like this. -/
def beginsWell (t : Table) (blob : Bytes) : Bool :=
  !markedTables.contains t ||
    match blob with
    | mark :: _ :: _ => marksWell t mark
    | _ => false

/-- The signature at an index is in its heap and begins as it should. Index 0 is that of none. -/
def signatureIsSound (s : Streams) (t : Table) (index : Nat) : Bool :=
  index == 0 || (s.blob? index).any (beginsWell t)

def signaturesAreSound (s : Streams) (ts : Tables) : Bool :=
  signatureColumns.all fun (table, place) =>
    (ts.ofTable table).all fun row => row[place]?.all (signatureIsSound s table)

/-! ## Generic parameters -/

/-- Covariant and contravariant: a parameter can be only one of them. -/
def varianceFlags : Nat := 3

/-- A reference type and a value type: an argument can be only one of them. -/
def kindFlags : Nat := 12

/-- The flags that mean something take the lowest five bits. -/
def flagLimit : Nat := 0x20

def hasAll (flags all : Nat) : Bool := flags &&& all == all

/-- A column of several tables refers to no row. -/
def isNull (c : Choice) (value : Nat) : Bool := value / c.tagCount == 0

/-- A generic parameter has flags that go together, an owner and a name. -/
def parameterIsSound : Row → Bool
  | [_, flags, owner, name] =>
    flags < flagLimit && !hasAll flags varianceFlags && !hasAll flags kindFlags &&
      !isNull .typeOrMethodDef owner && name != 0
  | _ => false

/-- A constraint is put on one of so many parameters, and is a type. -/
def constraintIsSound (parameterCount : Nat) : Row → Bool
  | [parameter, type] =>
    0 < parameter && parameter ≤ parameterCount && !isNull .typeDefOrRef type
  | _ => false

/-! ## All checks -/

/-- The tables pass a check. -/
def passes (s : Streams) (ts : Tables) : RowCheck → Bool
  | tokens =>
    (ts.rows.all fun (table, rows) => tableRefersToRows ts table rows) &&
      nestingsAreSound (nestings ts)
  | tables =>
    !(ts.ofTable .moduleInfo).isEmpty && (ts.ofTable .assembly).size ≤ 1 &&
      (ts.ofTable .typeDef).all (membersBegin ts)
  | heaps => heapsAreSound s
  | signatures => signaturesAreSound s ts
  | genericConstraints =>
    let parameters := ts.ofTable .genericParam
    parameters.all parameterIsSound &&
      (ts.ofTable .genericParamConstraint).all (constraintIsSound parameters.size)

/-- The checks that some tables fail. -/
def failed (s : Streams) (ts : Tables) : List RowCheck :=
  all.filter fun check => !check.passes s ts

end RowCheck

end Image

end SurfaceReport
