import SurfaceReport.Report.Node

/-!
# Reports as XML documents

A document is a declaration and the root's markup, each element's tags on lines of their own and
indented by two spaces per ancestor. A node without children is one self-closing tag. Attribute
values are escaped; tags and attribute names are written as they are.

The markup of a node is a list of lines rather than a text, so that the layout and the writing of a
single tag are two separate matters.
-/

namespace SurfaceReport

namespace Xml

/-! ## Tags -/

/-- A character as it is written in an attribute value: the five characters that mean something in
markup are written as their entities. -/
def escape (c : Char) : List Char :=
  match c with
  | '<' => ['&', 'l', 't', ';']
  | '>' => ['&', 'g', 't', ';']
  | '&' => ['&', 'a', 'm', 'p', ';']
  | '\x27' => ['&', 'a', 'p', 'o', 's', ';']
  | '\x22' => ['&', 'q', 'u', 'o', 't', ';']
  | _ => [c]

def escaped (value : List Char) : List Char :=
  value.flatMap escape

/-- An attribute behind the space that separates it from what stands before it. -/
def writtenAttribute (a : String × String) : List Char :=
  ' ' :: a.1.toList ++ '=' :: '\x22' :: escaped a.2.toList ++ ['\x22']

/-- A tag's name and attributes, without the brackets around them. -/
def tagBody (n : Node) : List Char :=
  n.tag.toList ++ n.attributes.flatMap writtenAttribute

def emptyTag (n : Node) : List Char := '<' :: tagBody n ++ ['/', '>']

/-- The tag before a node's children. -/
def startTag (n : Node) : List Char := '<' :: tagBody n ++ ['>']

/-- The tag behind a node's children. -/
def endTag (n : Node) : List Char := '<' :: '/' :: n.tag.toList ++ ['>']

/-! ## Documents -/

/-- What stands before a tag that has `depth` ancestors. -/
def indent (depth : Nat) : List Char := List.replicate (2 * depth) ' '

mutual

/-- The lines of a node that has `depth` ancestors. -/
def markup (depth : Nat) : Node → List (List Char)
  | ⟨tag, attributes, []⟩ => [indent depth ++ emptyTag ⟨tag, attributes, []⟩]
  | ⟨tag, attributes, child :: children⟩ =>
    (indent depth ++ startTag ⟨tag, attributes, []⟩) ::
      (markup (depth + 1) child ++ markupAll (depth + 1) children) ++
      [indent depth ++ endTag ⟨tag, attributes, []⟩]

/-- The lines of nodes that have the same `depth` ancestors, in order. -/
def markupAll (depth : Nat) : List Node → List (List Char)
  | [] => []
  | n :: rest => markup depth n ++ markupAll depth rest

end

def declaration : List Char :=
  "<?xml version=\x221.0\x22 encoding=\x22utf-8\x22?>".toList

/-- The document of a tree, as characters: every line is ended, also the last one. -/
def document (root : Node) : List Char :=
  (declaration :: markup 0 root).flatMap fun line => line ++ ['\n']

def text (root : Node) : String := .ofList (document root)

/-- The document of a tree, as the bytes of a file. -/
def bytes (root : Node) : ByteArray := (text root).toUTF8

end Xml

end SurfaceReport
