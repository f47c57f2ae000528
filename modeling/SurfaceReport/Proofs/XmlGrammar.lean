import SurfaceReport.Proofs.XmlReader

/-!
# What XML 1.0 makes of a document

The standard says which characters may stand in a document at all, which
sequences of them are one, and what a reader hands on of an attribute's
value. The last is not what is written between the quotes: a reader first
settles line ends, then takes every blank of the value for a space, and
only then puts characters in the place of entities (`recovered?`).

`Element` and `IsDocument` are the part of the grammar that reports need.
There is no text but blanks between tags, and no comment, instruction,
reference by number, single quote or document type; whatever is derived
here is derived by the whole grammar too. A derivation also says which
tree the document is read as, with the values as they are handed on.
-/

namespace SurfaceReport

namespace Xml

/-! ## Characters -/

def charRanges : List (Nat × Nat) :=
  [(0x9, 0xA), (0xD, 0xD), (0x20, 0xD7FF), (0xE000, 0xFFFD), (0x10000, 0x10FFFF)]

/-- The character may stand in a document. -/
def isChar (c : Char) : Bool := liesIn charRanges c

def isBlank (c : Char) : Bool := c = ' ' || c = '\t' || c = '\n' || c = '\r'

/-! ## Values -/

/-- Line ends as a reader settles them: a return is a line feed, together
with the line feed behind it if there is one. -/
def lineEnds : List Char → List Char
  | [] => []
  | '\r' :: '\n' :: rest => '\n' :: lineEnds rest
  | '\r' :: rest => '\n' :: lineEnds rest
  | c :: rest => c :: lineEnds rest

/-- A value in which every blank is a space. -/
def spaced (value : List Char) : List Char :=
  value.map fun c => if isBlank c then ' ' else c

/-- The value that a reader hands on when this is written between the quotes. -/
def recovered? (written : List Char) : Option (List Char) :=
  unescaped? (spaced (lineEnds written))

/-! ## Elements -/

/-- Attributes as they are written in a tag, each behind a blank, and what
they are read as. -/
inductive Attributes : List Char → List (String × String) → Prop where
  | nil : Attributes [] []
  | cons {gap literal rest : List Char} {name value : String} {attributes : List (String × String)}
      (hgap : gap ≠ []) (hblank : ∀ c ∈ gap, isBlank c = true) (hname : IsName name)
      (hliteral : ∀ c ∈ literal, c ≠ '<' ∧ c ≠ '\x22')
      (hvalue : recovered? literal = some value.toList) (hrest : Attributes rest attributes) :
      Attributes (gap ++ name.toList ++ '=' :: '\x22' :: literal ++ '\x22' :: rest)
        ((name, value) :: attributes)

mutual

/-- The characters of an element, and the node they are read as. No two
attributes of an element share a name, and its two tags have the same. -/
inductive Element : List Char → Node → Prop where
  | empty {name : String} {written : List Char} {attributes : List (String × String)}
      (hname : IsName name) (hattributes : Attributes written attributes)
      (hnodup : (attributes.map Prod.fst).Nodup) :
      Element ('<' :: name.toList ++ written ++ ['/', '>']) ⟨name, attributes, []⟩
  | paired {name : String} {written content : List Char} {attributes : List (String × String)}
      {children : List Node} (hname : IsName name) (hattributes : Attributes written attributes)
      (hnodup : (attributes.map Prod.fst).Nodup) (hcontent : Content content children) :
      Element
        ('<' :: name.toList ++ written ++ '>' :: content ++ '<' :: '/' :: name.toList ++ ['>'])
        ⟨name, attributes, children⟩

/-- What stands between two tags, and the nodes it is read as. -/
inductive Content : List Char → List Node → Prop where
  | blank {gap : List Char} (hblank : ∀ c ∈ gap, isBlank c = true) : Content gap []
  | element {gap written rest : List Char} {n : Node} {nodes : List Node}
      (hblank : ∀ c ∈ gap, isBlank c = true) (hwritten : Element written n)
      (hrest : Content rest nodes) : Content (gap ++ written ++ rest) (n :: nodes)

end

/-- The characters are a document, and this is the tree it is read as. -/
structure IsDocument (cs : List Char) (root : Node) : Prop where
  characters : ∀ c ∈ cs, isChar c = true
  shape : ∃ gap element tail, cs = declaration ++ gap ++ element ++ tail
    ∧ (∀ c ∈ gap, isBlank c = true) ∧ Element element root ∧ ∀ c ∈ tail, isBlank c = true

/-- The bytes encode a document in the way that the declaration says. -/
def IsDocumentFile (file : ByteArray) (root : Node) : Prop :=
  ∃ text, String.fromUTF8? file = some text ∧ IsDocument text.toList root

/-! ## Trees as they are read -/

/-- The text with a space for every tab and every line end. -/
def asRead (value : String) : String := .ofList (spaced (lineEnds value.toList))

mutual

/-- The tree with every value as it is read. -/
def nodeAsRead : Node → Node
  | ⟨tag, attributes, children⟩ =>
    ⟨tag, attributes.map fun a => (a.1, asRead a.2), nodesAsRead children⟩

def nodesAsRead : List Node → List Node
  | [] => []
  | n :: rest => nodeAsRead n :: nodesAsRead rest

end

/-- Every attribute value in the tree has the property. -/
def EveryValue (p : String → Prop) (root : Node) : Prop :=
  Every (fun n => ∀ a ∈ n.attributes, p a.2) root

/-- No two attributes of a node in the tree share a name. -/
def NamedApart (root : Node) : Prop :=
  Every (fun n => (n.attributes.map Prod.fst).Nodup) root

/-- The text holds only characters that may stand in a document. -/
def Printable (value : String) : Prop := ∀ c ∈ value.toList, isChar c = true

/-- The text is on one line and holds no tab. -/
def Unbroken (value : String) : Prop := ∀ c ∈ value.toList, c ≠ '\t' ∧ c ≠ '\n' ∧ c ≠ '\r'

end Xml

end SurfaceReport
