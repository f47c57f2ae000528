import SurfaceReport.Proofs.XmlGrammar
import SurfaceReport.Proofs.XmlRoundTrip

/-!
# A document is read in one way

The grammar leaves a reader no choice (`isDocument_unique`). Blanks, a
name and a value end where something comes that does not go on with them
(`eq_of_stops`), and at each bracket one character says what it is the
bracket of. An element is thus settled by what it begins with, whatever
is behind it, and that is how the elements within it are settled before
the tag that closes it is in sight.
-/

namespace SurfaceReport

namespace Xml

/-! ## Words -/

/-- The characters do not go on with a word of the kind. -/
def Stops (p : Char → Bool) (cs : List Char) : Prop := ∀ c ∈ cs.head?, p c = false

variable {p : Char → Bool}

theorem stops_cons {c : Char} {cs : List Char} : Stops p (c :: cs) ↔ p c = false := by
  simp [Stops]

/-- Where two words of the same kind stop, they are the same. -/
theorem eq_of_stops {first second restFirst restSecond : List Char}
    (hfirst : ∀ c ∈ first, p c = true) (hsecond : ∀ c ∈ second, p c = true)
    (hstop : Stops p restFirst) (hstop' : Stops p restSecond)
    (h : first ++ restFirst = second ++ restSecond) : first = second ∧ restFirst = restSecond := by
  have htake {word rest : List Char} (hword : ∀ c ∈ word, p c = true) (hrest : Stops p rest) :
      (word ++ rest).takeWhile p = word := by
    rw [List.takeWhile_append_of_pos hword]
    cases rest with
    | nil => exact List.append_nil word
    | cons c rest =>
        rw [List.takeWhile_cons_of_neg (by simp [stops_cons.mp hrest]), List.append_nil]
  have hword := congrArg (List.takeWhile p) h
  rw [htake hfirst hstop, htake hsecond hstop'] at hword
  rw [hword] at h
  exact ⟨hword, List.append_cancel_left h⟩

theorem isNameChar_of_isBlank {c : Char} (h : isBlank c = true) : isNameChar c = false := by
  simp only [isBlank, Bool.or_eq_true, decide_eq_true_eq] at h
  rcases h with ((rfl | rfl) | rfl) | rfl <;> decide

theorem stops_name {name : String} (h : IsName name) (rest : List Char) :
    Stops isBlank (name.toList ++ rest) := by
  obtain ⟨c, tail, hname, hstart⟩ := exists_nameStart h
  rw [hname, List.cons_append, stops_cons]
  cases hc : isBlank c with
  | false => rfl
  | true =>
      have hchar := isNameChar_of_isBlank hc
      rw [isNameChar, hstart] at hchar
      cases hchar

theorem stops_gap {gap : List Char} (hgap : gap ≠ []) (hblank : ∀ c ∈ gap, isBlank c = true)
    (rest : List Char) : Stops isNameChar (gap ++ rest) ∧ ¬ Stops isBlank (gap ++ rest) := by
  obtain ⟨c, gap, rfl⟩ := List.exists_cons_of_ne_nil hgap
  have hc := hblank c (List.mem_cons_self ..)
  rw [List.cons_append, stops_cons, stops_cons, hc]
  exact ⟨isNameChar_of_isBlank hc, Bool.noConfusion⟩

/-! ## Attributes -/

theorem stops_attributes {written : List Char} {attributes : List (String × String)}
    (h : Attributes written attributes) {rest : List Char} (hrest : Stops isNameChar rest) :
    Stops isNameChar (written ++ rest) := by
  cases h with
  | nil => exact hrest
  | cons hgap hblank =>
      simp only [List.append_assoc]
      exact (stops_gap hgap hblank _).1

theorem attribute_append {gap literal rest : List Char} (name : String) (cs : List Char) :
    gap ++ name.toList ++ '=' :: '\x22' :: literal ++ '\x22' :: rest ++ cs
      = gap ++ (name.toList ++ '=' :: '\x22' :: (literal ++ '\x22' :: (rest ++ cs))) := by
  simp

theorem attributes_unique {first : List Char} {attributes : List (String × String)}
    (hfirst : Attributes first attributes) :
    ∀ {second : List Char} {others : List (String × String)}, Attributes second others →
    ∀ {restFirst restSecond : List Char}, Stops isBlank restFirst → Stops isBlank restSecond →
      first ++ restFirst = second ++ restSecond → attributes = others ∧ restFirst = restSecond := by
  induction hfirst with
  | nil =>
      intro second others hsecond restFirst restSecond hstop hstop' h
      cases hsecond with
      | nil => exact ⟨rfl, h⟩
      | cons hgap hblank =>
          rw [List.nil_append, attribute_append] at h
          rw [h] at hstop
          exact absurd hstop (stops_gap hgap hblank _).2
  | @cons gap literal rest name value attributes hgap hblank hname hliteral hvalue _ ih =>
      intro second others hsecond restFirst restSecond hstop hstop' h
      cases hsecond with
      | nil =>
          rw [List.nil_append, attribute_append] at h
          rw [← h] at hstop'
          exact absurd hstop' (stops_gap hgap hblank _).2
      | @cons _ literal' _ name' value' _ _ hblank' hname' hliteral' hvalue' hrest' =>
          rw [attribute_append, attribute_append] at h
          obtain ⟨-, h⟩ := eq_of_stops hblank hblank' (stops_name hname _) (stops_name hname' _) h
          obtain ⟨hnames, h⟩ := eq_of_stops (isNameChar_of_isName hname)
            (isNameChar_of_isName hname') (stops_cons.mpr rfl) (stops_cons.mpr rfl) h
          obtain ⟨hliterals, h⟩ := eq_of_stops (p := (· ≠ '\x22'))
            (fun c hc => decide_eq_true (hliteral c hc).2)
            (fun c hc => decide_eq_true (hliteral' c hc).2)
            (stops_cons.mpr rfl) (stops_cons.mpr rfl) (List.cons.inj (List.cons.inj h).2).2
          obtain ⟨rfl, hrests⟩ := ih hrest' hstop hstop' (List.cons.inj h).2
          obtain rfl : name = name' := String.toList_inj.mp hnames
          rw [hliterals, hvalue', Option.some_inj, String.toList_inj] at hvalue
          exact ⟨by rw [hvalue], hrests⟩

/-! ## Elements -/

/-- A tag is read in one way up to its bracket, with or without a slash. -/
theorem opening_unique {name name' : String} {written written' : List Char}
    {attributes attributes' : List (String × String)} (hname : IsName name) (hname' : IsName name')
    (hwritten : Attributes written attributes) (hwritten' : Attributes written' attributes')
    {rest rest' : List Char} (hstop : Stops isBlank rest ∧ Stops isNameChar rest)
    (hstop' : Stops isBlank rest' ∧ Stops isNameChar rest')
    (h : name.toList ++ (written ++ rest) = name'.toList ++ (written' ++ rest')) :
    name = name' ∧ attributes = attributes' ∧ rest = rest' := by
  obtain ⟨hnames, h⟩ := eq_of_stops (isNameChar_of_isName hname) (isNameChar_of_isName hname')
    (stops_attributes hwritten hstop.2) (stops_attributes hwritten' hstop'.2) h
  obtain ⟨hattributes, hrests⟩ := attributes_unique hwritten hwritten' hstop.1 hstop'.1 h
  exact ⟨String.toList_inj.mp hnames, hattributes, hrests⟩

theorem stops_of_mark {c : Char} (h : c = '/' ∨ c = '>') (rest : List Char) :
    Stops isBlank (c :: rest) ∧ Stops isNameChar (c :: rest) := by
  rw [stops_cons, stops_cons]
  rcases h with rfl | rfl <;> decide

theorem stops_element {written : List Char} {n : Node} (h : Element written n) (rest : List Char) :
    Stops isBlank (written ++ rest) := by
  cases h <;> exact stops_cons.mpr rfl

theorem empty_append {name : String} {written : List Char} (cs : List Char) :
    '<' :: name.toList ++ written ++ ['/', '>'] ++ cs
      = '<' :: (name.toList ++ (written ++ '/' :: '>' :: cs)) := by
  simp

theorem paired_append {name : String} {written content : List Char} (cs : List Char) :
    '<' :: name.toList ++ written ++ '>' :: content ++ '<' :: '/' :: name.toList ++ ['>'] ++ cs
      = '<' :: (name.toList
        ++ (written ++ '>' :: (content ++ '<' :: '/' :: (name.toList ++ '>' :: cs)))) := by
  simp

theorem content_append {gap written rest cs : List Char} :
    gap ++ written ++ rest ++ cs = gap ++ (written ++ (rest ++ cs)) := by
  simp

/-- An element is not the tag behind a node's children. -/
theorem element_ne_closing {written : List Char} {n : Node} (h : Element written n)
    (rest closing : List Char) : written ++ rest ≠ '<' :: '/' :: closing := by
  have hstart {name : String} (hname : IsName name) (cs : List Char) :
      '<' :: (name.toList ++ cs) ≠ '<' :: '/' :: closing := by
    obtain ⟨c, tail, hc, hstart⟩ := exists_nameStart hname
    rw [hc]
    intro hcs
    rw [(List.cons.inj (List.cons.inj hcs).2).1] at hstart
    exact absurd hstart (by decide)
  cases h with
  | empty hname =>
      rw [empty_append]
      exact hstart hname _
  | paired hname =>
      rw [paired_append]
      exact hstart hname _

mutual

theorem element_unique {first : List Char} {n : Node} (hfirst : Element first n) :
    ∀ {second : List Char} {m : Node}, Element second m →
    ∀ {restFirst restSecond : List Char}, first ++ restFirst = second ++ restSecond →
      n = m ∧ restFirst = restSecond := by
  intro second m hsecond restFirst restSecond h
  -- The name and the attributes agree before it is seen which of the two forms an element has.
  cases hfirst with
  | empty hname hattributes =>
      rw [empty_append] at h
      cases hsecond with
      | empty hname' hattributes' =>
          rw [empty_append] at h
          obtain ⟨rfl, rfl, hrest⟩ := opening_unique hname hname' hattributes hattributes'
            (stops_of_mark (.inl rfl) _) (stops_of_mark (.inl rfl) _) (List.cons.inj h).2
          exact ⟨rfl, (List.cons.inj (List.cons.inj hrest).2).2⟩
      | paired hname' hattributes' =>
          rw [paired_append] at h
          obtain ⟨-, -, hrest⟩ := opening_unique hname hname' hattributes hattributes'
            (stops_of_mark (.inl rfl) _) (stops_of_mark (.inr rfl) _) (List.cons.inj h).2
          cases (List.cons.inj hrest).1
  | paired hname hattributes _ hcontent =>
      rw [paired_append] at h
      cases hsecond with
      | empty hname' hattributes' =>
          rw [empty_append] at h
          obtain ⟨-, -, hrest⟩ := opening_unique hname hname' hattributes hattributes'
            (stops_of_mark (.inr rfl) _) (stops_of_mark (.inl rfl) _) (List.cons.inj h).2
          cases (List.cons.inj hrest).1
      | paired hname' hattributes' _ hcontent' =>
          rw [paired_append] at h
          obtain ⟨rfl, rfl, hrest⟩ := opening_unique hname hname' hattributes hattributes'
            (stops_of_mark (.inr rfl) _) (stops_of_mark (.inr rfl) _) (List.cons.inj h).2
          obtain ⟨rfl, hclosing⟩ := content_unique hcontent hcontent' (List.cons.inj hrest).2
          exact ⟨rfl, (List.cons.inj (List.append_cancel_left hclosing)).2⟩

theorem content_unique {first : List Char} {nodes : List Node} (hfirst : Content first nodes) :
    ∀ {second : List Char} {others : List Node}, Content second others →
    ∀ {restFirst restSecond : List Char},
      first ++ '<' :: '/' :: restFirst = second ++ '<' :: '/' :: restSecond →
      nodes = others ∧ restFirst = restSecond := by
  intro second others hsecond restFirst restSecond h
  -- Behind blanks there is the closing tag on both sides, or an element on both sides.
  have hclosing (rest : List Char) : Stops isBlank ('<' :: '/' :: rest) := stops_cons.mpr rfl
  cases hfirst with
  | blank hblank =>
      cases hsecond with
      | blank hblank' =>
          obtain ⟨-, h⟩ := eq_of_stops hblank hblank' (hclosing _) (hclosing _) h
          exact ⟨rfl, (List.cons.inj (List.cons.inj h).2).2⟩
      | element hblank' hwritten' =>
          rw [content_append] at h
          obtain ⟨-, h⟩ := eq_of_stops hblank hblank' (hclosing _) (stops_element hwritten' _) h
          exact absurd h.symm (element_ne_closing hwritten' _ _)
  | element hblank hwritten hrest =>
      rw [content_append] at h
      cases hsecond with
      | blank hblank' =>
          obtain ⟨-, h⟩ := eq_of_stops hblank hblank' (stops_element hwritten _) (hclosing _) h
          exact absurd h (element_ne_closing hwritten _ _)
      | element hblank' hwritten' hrest' =>
          rw [content_append] at h
          obtain ⟨-, h⟩ := eq_of_stops hblank hblank' (stops_element hwritten _)
            (stops_element hwritten' _) h
          obtain ⟨rfl, h⟩ := element_unique hwritten hwritten' h
          obtain ⟨rfl, h⟩ := content_unique hrest hrest' h
          exact ⟨rfl, h⟩

end

/-- **A document is read as one tree.** -/
theorem isDocument_unique {cs : List Char} {n m : Node} (hn : IsDocument cs n)
    (hm : IsDocument cs m) : n = m := by
  obtain ⟨gap, element, tail, hcs, hgap, helement, -⟩ := hn.shape
  obtain ⟨gap', element', tail', hcs', hgap', helement', -⟩ := hm.shape
  rw [hcs] at hcs'
  simp only [List.append_assoc] at hcs'
  obtain ⟨-, h⟩ := eq_of_stops hgap hgap' (stops_element helement _) (stops_element helement' _)
    (List.append_cancel_left hcs')
  exact (element_unique helement helement' h).1

end Xml

end SurfaceReport
