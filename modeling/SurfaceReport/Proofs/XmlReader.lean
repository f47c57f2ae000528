import SurfaceReport.Report.Xml

/-!
# Reading a document back

A reader for the documents that reports are written as. It works in two
stages that need not know of each other: the characters become a list of
tags (`readTags`), where blanks and line ends between tags say nothing,
and the tags become a tree (`treeOf?`), where nothing but nesting
matters. That a document is laid out in lines, and how deep a line is
indented, is thus nothing that the reader relies on.

Between its quotes a value never holds a quote, because quotes are
written as entities. So the first quote ends the value, whatever else
stands in it: brackets, line ends, or what looks like an attribute.
-/

namespace SurfaceReport

namespace Xml

/-! ## Names

The characters that begin a name, and the further ones that go on with
it, are given as ranges of code points. -/

def nameStartRanges : List (Nat × Nat) :=
  [(0x3A, 0x3A), (0x41, 0x5A), (0x5F, 0x5F), (0x61, 0x7A), (0xC0, 0xD6), (0xD8, 0xF6),
    (0xF8, 0x2FF), (0x370, 0x37D), (0x37F, 0x1FFF), (0x200C, 0x200D), (0x2070, 0x218F),
    (0x2C00, 0x2FEF), (0x3001, 0xD7FF), (0xF900, 0xFDCF), (0xFDF0, 0xFFFD), (0x10000, 0xEFFFF)]

def nameTailRanges : List (Nat × Nat) :=
  [(0x2D, 0x2E), (0x30, 0x39), (0xB7, 0xB7), (0x300, 0x36F), (0x203F, 0x2040)]

def liesIn (ranges : List (Nat × Nat)) (c : Char) : Bool :=
  ranges.any fun (low, high) => low ≤ c.toNat && c.toNat ≤ high

def isNameStart (c : Char) : Bool := liesIn nameStartRanges c

def isNameChar (c : Char) : Bool := isNameStart c || liesIn nameTailRanges c

def isName : List Char → Bool
  | [] => false
  | c :: rest => isNameStart c && rest.all isNameChar

/-- The text is a name, as tags and attributes have one. -/
def IsName (name : String) : Prop := isName name.toList = true

instance (name : String) : Decidable (IsName name) :=
  inferInstanceAs (Decidable (isName name.toList = true))

/-- Every node of the tree has the property. -/
inductive Every (p : Node → Prop) : Node → Prop where
  | intro {n : Node} (self : p n) (children : ∀ child ∈ n.children, Every p child) : Every p n

theorem every_iff {p : Node → Prop} {n : Node} :
    Every p n ↔ p n ∧ ∀ child ∈ n.children, Every p child :=
  ⟨fun ⟨self, children⟩ => ⟨self, children⟩, fun ⟨self, children⟩ => ⟨self, children⟩⟩

theorem Every.imp {p q : Node → Prop} (hpq : ∀ n, p n → q n) {n : Node} (h : Every p n) :
    Every q n := by
  induction h with
  | intro self _ ih => exact .intro (hpq _ self) ih

/-- All tags and attributes in the tree have names. Values may be any
texts. -/
inductive WellNamed : Node → Prop where
  | intro {n : Node} (tag : IsName n.tag) (attributes : ∀ a ∈ n.attributes, IsName a.1)
      (children : ∀ child ∈ n.children, WellNamed child) : WellNamed n

/-- The name that some characters begin with, and what is behind it. -/
def readName (cs : List Char) : String × List Char :=
  (.ofList (cs.takeWhile isNameChar), cs.dropWhile isNameChar)

/-! ## Attributes -/

/-- A value without its entities. An ampersand that begins none of them
cannot be read. -/
def unescaped? : List Char → Option (List Char)
  | [] => some []
  | '&' :: 'l' :: 't' :: ';' :: rest => (unescaped? rest).map ('<' :: ·)
  | '&' :: 'g' :: 't' :: ';' :: rest => (unescaped? rest).map ('>' :: ·)
  | '&' :: 'a' :: 'm' :: 'p' :: ';' :: rest => (unescaped? rest).map ('&' :: ·)
  | '&' :: 'a' :: 'p' :: 'o' :: 's' :: ';' :: rest => (unescaped? rest).map ('\x27' :: ·)
  | '&' :: 'q' :: 'u' :: 'o' :: 't' :: ';' :: rest => (unescaped? rest).map ('\x22' :: ·)
  | '&' :: _ => none
  | c :: rest => (unescaped? rest).map (c :: ·)

/-- A value that is ended by a quote, and what is behind the quote. -/
def readValue (cs : List Char) : Option (String × List Char) :=
  match cs.dropWhile (· ≠ '\x22') with
  | [] => none
  | _ :: rest => (unescaped? (cs.takeWhile (· ≠ '\x22'))).map fun value => (.ofList value, rest)

/-- An attribute behind a space, and what is behind it. -/
def readAttribute : List Char → Option ((String × String) × List Char)
  | ' ' :: cs =>
    match readName cs with
    | (name, '=' :: '\x22' :: rest) =>
      (readValue rest).map fun (value, rest) => ((name, value), rest)
    | _ => none
  | _ => none

theorem length_dropWhile_le (p : Char → Bool) (cs : List Char) :
    (cs.dropWhile p).length ≤ cs.length :=
  (List.dropWhile_sublist p).length_le

theorem readValue_length {cs rest : List Char} {value : String}
    (h : readValue cs = some (value, rest)) : rest.length < cs.length := by
  have hle := length_dropWhile_le (· ≠ '\x22') cs
  rw [readValue] at h
  split at h
  · cases h
  · rename_i heq
    obtain ⟨v, -, hv⟩ := Option.map_eq_some_iff.mp h
    obtain ⟨-, rfl⟩ := Prod.mk.inj hv
    rw [heq, List.length_cons] at hle
    omega

theorem readAttribute_length {cs rest : List Char} {a : String × String}
    (h : readAttribute cs = some (a, rest)) : rest.length < cs.length := by
  rw [readAttribute.eq_def] at h
  split at h
  · rename_i cs
    split at h
    · rename_i name behind heq
      obtain ⟨⟨value, rest'⟩, hvalue, hrest⟩ := Option.map_eq_some_iff.mp h
      obtain ⟨-, rfl⟩ := Prod.mk.inj hrest
      have hle := length_dropWhile_le isNameChar cs
      have hlt := readValue_length hvalue
      rw [(Prod.mk.inj heq).2] at hle
      simp only [List.length_cons] at hle ⊢
      omega
    · cases h
  · cases h

def readAttributes (cs : List Char) : List (String × String) × List Char :=
  match h : readAttribute cs with
  | none => ([], cs)
  | some (a, rest) =>
    have := readAttribute_length h
    (a :: (readAttributes rest).1, (readAttributes rest).2)
termination_by cs.length
decreasing_by all_goals assumption

theorem readAttributes_length (cs : List Char) : (readAttributes cs).2.length ≤ cs.length := by
  fun_induction readAttributes cs with
  | case1 cs h => exact Nat.le_refl _
  | case2 cs a rest h hlt ih => exact Nat.le_trans ih (Nat.le_of_lt hlt)

/-! ## Tags -/

inductive Tag where
  | empty (name : String) (attributes : List (String × String))
  | start (name : String) (attributes : List (String × String))
  | close (name : String)

/-- The tag of a node, behind its opening bracket. -/
def readOpening (cs : List Char) : Option (Tag × List Char) :=
  match readAttributes (readName cs).2 with
  | (attributes, '/' :: '>' :: rest) => some (.empty (readName cs).1 attributes, rest)
  | (attributes, '>' :: rest) => some (.start (readName cs).1 attributes, rest)
  | _ => none

/-- The tag behind a node's children, behind its bracket and slash. -/
def readClosing (cs : List Char) : Option (Tag × List Char) :=
  match readName cs with
  | (name, '>' :: rest) => some (.close name, rest)
  | _ => none

def readTag : List Char → Option (Tag × List Char)
  | '<' :: '/' :: cs => readClosing cs
  | '<' :: cs => readOpening cs
  | _ => none

theorem readOpening_length {cs rest : List Char} {tag : Tag}
    (h : readOpening cs = some (tag, rest)) : rest.length < cs.length := by
  have hname : (readName cs).2.length ≤ cs.length := length_dropWhile_le isNameChar cs
  have hattributes := readAttributes_length (readName cs).2
  rw [readOpening] at h
  split at h
  · rename_i heq
    obtain ⟨-, rfl⟩ := Prod.mk.inj (Option.some.inj h)
    rw [heq] at hattributes
    simp only [List.length_cons] at hattributes
    omega
  · rename_i heq
    obtain ⟨-, rfl⟩ := Prod.mk.inj (Option.some.inj h)
    rw [heq] at hattributes
    simp only [List.length_cons] at hattributes
    omega
  · cases h

theorem readClosing_length {cs rest : List Char} {tag : Tag}
    (h : readClosing cs = some (tag, rest)) : rest.length < cs.length := by
  have hname : (readName cs).2.length ≤ cs.length := length_dropWhile_le isNameChar cs
  rw [readClosing] at h
  split at h
  · rename_i heq
    obtain ⟨-, rfl⟩ := Prod.mk.inj (Option.some.inj h)
    rw [heq, List.length_cons] at hname
    omega
  · cases h

theorem readTag_length {cs rest : List Char} {tag : Tag}
    (h : readTag cs = some (tag, rest)) : rest.length < cs.length := by
  rw [readTag.eq_def] at h
  split at h
  · have hlt := readClosing_length h
    simp only [List.length_cons]
    omega
  · have hlt := readOpening_length h
    simp only [List.length_cons]
    omega
  · cases h

/-- All tags. Between tags there are only blanks and line ends. -/
def readTags : List Char → Option (List Tag)
  | [] => some []
  | c :: cs =>
    if c = ' ' ∨ c = '\n' then readTags cs
    else match h : readTag (c :: cs) with
      | none => none
      | some (tag, rest) =>
        have := readTag_length h
        (readTags rest).map (tag :: ·)
termination_by cs => cs.length
decreasing_by
  · exact Nat.lt_succ_self _
  · assumption

/-! ## Trees -/

/-- Takes one tag more. The nodes are those that are still open, each
with the children it has so far, innermost first. -/
def nest : List Node → Tag → Option (List Node)
  | parent :: outer, .empty name attributes =>
    some (parent.withChildren [⟨name, attributes, []⟩] :: outer)
  | opened, .start name attributes => some (⟨name, attributes, []⟩ :: opened)
  | n :: parent :: outer, .close name =>
    if n.tag = name then some (parent.withChildren [n] :: outer) else none
  | _, _ => none

def documentNode : Node := ⟨"", [], []⟩

/-- The tree that some tags spell, if they spell exactly one. -/
def treeOf? (tags : List Tag) : Option Node :=
  match tags.foldlM nest [documentNode] with
  | some [⟨_, _, [root]⟩] => some root
  | _ => none

def parse? (cs : List Char) : Option Node :=
  if declaration.isPrefixOf cs then
    (readTags (cs.drop declaration.length)).bind treeOf?
  else none

def decode? (file : ByteArray) : Option Node :=
  (String.fromUTF8? file).bind fun text => parse? text.toList

end Xml

end SurfaceReport
