import SurfaceReport.Text.Utf8

/-!
# What a terminal shows of a text

A terminal shows most characters, and obeys the others: control characters, and the sequences that
an escape character begins. Taken out of a text, they leave what can be read of it.

Which character ends a sequence depends on its kind, and that on the character behind the escape. A
character that breaks a line or moves on to the next stop is shown even where a sequence is not
over, which ends it.

Terminals for characters of one byte had a byte that ends a string. It still does, and as strings
are read byte by byte, it does so in the middle of a character that is encoded with it.
-/

namespace SurfaceReport

namespace Terminal

/-! ## Characters -/

def escape : Char := '\x1B'

/-- Ends whatever has begun. -/
def aborts : List Char := ['\x18', '\x1A']

def bell : Char := '\x07'

/-- The control characters that lay a text out. -/
def layout : List Char := ['\t', '\n', '\x0C', '\r']

/-- The byte that ends a string. -/
def terminator : UInt8 := 0x9C

/-- A character is encoded with the byte that ends a string. -/
def endsStrings (c : Char) : Bool := (Utf8.encode (.singleton c)).contains terminator

def delete : Char := '\x7F'

def isPlain (c : Char) : Bool := ' ' ≤ c && c < delete

/-- A character that is shown where no sequence has begun. -/
def isShown (c : Char) : Bool := layout.contains c || (' ' ≤ c && c != delete)

/-! ## Sequences -/

/-- What has begun and is not over. -/
inductive Mode where
  /-- Nothing: what comes is text. -/
  | text
  | escaped
  /-- A sequence that one more character ends, unless that is an intermediate one too. -/
  | intermediate
  | controlSequence
  /-- A command to what is behind the terminal, which a bell can end. -/
  | command
  /-- A string for a device, with nothing of it yet. -/
  | deviceString
  /-- A string for a device, with parameters. -/
  | deviceParameters
  /-- A string for a device, with characters between the parameters and the function. -/
  | deviceIntermediate
  /-- What a device is to do with a string, or any other string. -/
  | controlString
  deriving DecidableEq, Repr, Inhabited

namespace Mode

/-- What a plain character makes of a sequence of unknown kind. -/
def ofKind (c : Char) : Mode :=
  if c < '0' then intermediate
  else if c = '[' then controlSequence
  else if c = ']' then command
  else if c = 'P' then deviceString
  else if ['X', '^', '_'].contains c then controlString
  else text

/-- What is left of a sequence behind a plain character. -/
def behind (m : Mode) (c : Char) : Mode :=
  match m with
  | escaped => ofKind c
  | intermediate => if c < '0' then intermediate else text
  | controlSequence => if c < '@' then controlSequence else text
  | deviceString =>
    if c < '0' then deviceIntermediate else if c < '@' then deviceParameters else controlString
  | deviceParameters =>
    if c < '0' then deviceIntermediate else if c < '<' then deviceParameters else controlString
  | deviceIntermediate => if c < '0' then deviceIntermediate else controlString
  | command | controlString | text => m

/-- Characters that lay a text out are shown within such a sequence, which they end. -/
def allowsLayout : Mode → Bool
  | escaped | intermediate | controlSequence => true
  | text | command | deviceString | deviceParameters | deviceIntermediate | controlString => false

/-- What has begun behind a character, and whether the character is shown. -/
def step (m : Mode) (c : Char) : Mode × Bool :=
  if c = escape then (escaped, false)
  else if aborts.contains c then (text, false)
  else if m = text then (text, isShown c)
  else if m = command ∧ c = bell then (text, false)
  else if m = controlString ∧ endsStrings c then (text, false)
  else if m.allowsLayout && layout.contains c then (text, true)
  else if isPlain c then (m.behind c, false)
  else (m, false)

/-- The characters of a text that are shown, behind what has begun before it. -/
def shown (m : Mode) : List Char → List Char
  | [] => []
  | c :: rest =>
    let (next, isShown) := m.step c
    if isShown then c :: shown next rest else shown next rest

end Mode

def shown (text : String) : String := .ofList (Mode.shown .text text.toList)

end Terminal

end SurfaceReport
