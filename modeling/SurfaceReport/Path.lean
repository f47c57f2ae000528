import SurfaceReport.Text.Utf8

/-!
# Paths

A path is a sequence of bytes, of which only `/` and `.` mean anything. It begins with a *lead*
(the root, or a single dot that names the current directory) and goes on with *pieces* between
slashes. An empty piece or a dot further on says nothing, so that the last component of a path is
its last piece that says something.

Everything is computed from the pieces. Nothing looks at a file system: `..` is a piece like any
other, except that it is no file name.
-/

namespace SurfaceReport

/-- A path, as its bytes. -/
structure Path where
  bytes : Bytes
  deriving DecidableEq, Repr, Inhabited

namespace Path

def separator : UInt8 := 0x2F

/-- Names the directory it stands in, and begins a file's extension. -/
def dot : UInt8 := 0x2E

def ofText (text : String) : Path := ⟨Utf8.encode text⟩

/-- The path as it is shown in messages. -/
def shown (p : Path) : String := Utf8.shown p.bytes

/-! ## Pieces -/

def split : Bytes → List Bytes
  | [] => [[]]
  | b :: rest =>
    if b = separator then [] :: split rest
    else match split rest with
      | [] => [[b]]
      | piece :: pieces => (b :: piece) :: pieces

def joined : List Bytes → Bytes
  | [] => []
  | [piece] => piece
  | piece :: pieces => piece ++ separator :: joined pieces

/-- A piece that says something about where the path leads. -/
def significant (piece : Bytes) : Bool :=
  piece ≠ [] && piece ≠ [dot]

/-- What a path begins with before its pieces: the root, a dot on its own, or nothing. -/
def lead (p : Path) : Bytes :=
  match p.bytes with
  | b :: rest =>
    if b = separator then [separator]
    else if b = dot ∧ (rest = [] ∨ rest.head? = some separator) then [dot]
    else []
  | [] => []

/-- The pieces behind the lead, up to the last one that says something. -/
def trimmed (pieces : List Bytes) : List Bytes :=
  (pieces.reverse.dropWhile fun piece => !significant piece).reverse

/-- The pieces of a path, without a tail that says nothing. -/
def pieces (p : Path) : List Bytes :=
  trimmed (split (p.bytes.drop p.lead.length))

/-- The components that two paths are compared by: the lead if there is one, and every piece that
says something. -/
def components (p : Path) : List Bytes :=
  (if p.lead = [] then [] else [p.lead]) ++ p.pieces.filter significant

/-- Two paths are the same path if they have the same components. -/
def Same (p q : Path) : Prop := p.components = q.components

instance (p q : Path) : Decidable (Same p q) := inferInstanceAs (Decidable (_ = _))

def isAbsolute (p : Path) : Bool := p.bytes.head? == some separator

/-! ## Parts of a path -/

/-- The last component, unless it is one that climbs. -/
def fileName? (p : Path) : Option Bytes :=
  match p.pieces.getLast? with
  | none => none
  | some piece => if piece = [dot, dot] then none else some piece

/-- What a path leads through before its last component. The root and the empty path lead through
nothing. -/
def parent? (p : Path) : Option Path :=
  if p.pieces = [] then
    if p.lead = [dot] then some ⟨[]⟩ else none
  else some ⟨p.lead ++ joined (trimmed p.pieces.dropLast)⟩

/-- A file name without its extension: what stands before the last dot, unless nothing does. -/
def stemOf (name : Bytes) : Bytes :=
  match (name.reverse.dropWhile (· ≠ dot)).drop 1 with
  | [] => name
  | front => front.reverse

/-- The file name without its extension, if the path has a file name. -/
def stem? (p : Path) : Option Bytes := p.fileName?.map stemOf

/-- The path of a file in a directory. A separator is put in only where one is missing, and a name
that starts at the root stands for itself. -/
def join (directory name : Path) : Path :=
  if name.isAbsolute then name
  else if directory.bytes = [] ∨ directory.bytes.getLast? = some separator then
    ⟨directory.bytes ++ name.bytes⟩
  else ⟨directory.bytes ++ separator :: name.bytes⟩

end Path

end SurfaceReport
