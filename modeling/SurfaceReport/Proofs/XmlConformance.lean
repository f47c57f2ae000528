import SurfaceReport.Proofs.XmlUniqueness
import SurfaceReport.Proofs.XmlValues

/-!
# Reports before the standard

The standard has two things to say about what a report does not escape.
Some characters must not stand in a document at all, so a report with
one of them in a value is not a document (`isChar_document_iff`). Tabs
and line ends are read as spaces, so a report with one of those is read
as another one. There is nothing else to say (`build_conforms_iff`).

A node's lines are an element whatever its depth (`element_markup`):
what indents them and ends them is blank, and belongs to the contents of
the node above.
-/

namespace SurfaceReport

namespace Xml

/-! ## The characters of a document -/

theorem isChar_of_isNameChar {c : Char} (h : isNameChar c = true) : isChar c = true := by
  simp only [isNameChar, isNameStart, liesIn, nameStartRanges, nameTailRanges, isChar, charRanges,
    List.any_cons, List.any_nil, Bool.or_eq_true, Bool.and_eq_true, decide_eq_true_eq,
    Bool.or_false] at h ⊢
  omega

theorem all_isChar_name {name : String} (h : IsName name) : name.toList.all isChar = true :=
  List.all_eq_true.mpr fun c hc => isChar_of_isNameChar (isNameChar_of_isName h c hc)

theorem all_isChar_indent (depth : Nat) : (indent depth).all isChar = true := by
  have hspace : isChar ' ' = true := by decide
  rw [indent, List.all_replicate, hspace, ite_self]

theorem all_isChar_attribute_iff {a : String × String} (h : IsName a.1) :
    (writtenAttribute a).all isChar = true ↔ Printable a.2 := by
  have hvalue := forall_escaped (p := fun c => isChar c = true)
    (List.all_eq_true.mp (by decide)) (List.all_eq_true.mp (by decide)) a.2.toList
  have hmarks : isChar ' ' = true ∧ isChar '=' = true ∧ isChar '\x22' = true := by decide
  rw [Printable, ← hvalue, ← List.all_eq_true]
  simp [writtenAttribute, all_isChar_name h, hmarks]

theorem all_isChar_tagBody_iff {n : Node} (htag : IsName n.tag)
    (hattributes : ∀ a ∈ n.attributes, IsName a.1) :
    (tagBody n).all isChar = true ↔ ∀ a ∈ n.attributes, Printable a.2 := by
  rw [tagBody, List.all_append, all_isChar_name htag, Bool.true_and, List.all_flatMap,
    List.all_eq_true]
  exact forall₂_congr fun a ha => all_isChar_attribute_iff (hattributes a ha)

theorem written_markup_leaf (depth : Nat) (tag : String) (attributes : List (String × String)) :
    written (markup depth ⟨tag, attributes, []⟩)
      = indent depth ++ emptyTag ⟨tag, attributes, []⟩ ++ ['\n'] := by
  simp [markup, written]

theorem written_markup_cons (depth : Nat) (tag : String) (attributes : List (String × String))
    (child : Node) (children : List Node) :
    written (markup depth ⟨tag, attributes, child :: children⟩)
      = indent depth ++ startTag ⟨tag, attributes, []⟩
        ++ ('\n' :: written (markupAll (depth + 1) (child :: children)) ++ indent depth)
        ++ endTag ⟨tag, attributes, []⟩ ++ ['\n'] := by
  simp [markup_cons, written]

theorem all_markupAll_iff {p : Char → Bool} {depth : Nat} {children : List Node} :
    (written (markupAll depth children)).all p = true
      ↔ ∀ child ∈ children, (written (markup depth child)).all p = true := by
  induction children with
  | nil => simp [markupAll, written]
  | cons child children ih =>
      rw [markupAll, written, List.flatMap_append, List.all_append, ← written, ← written,
        Bool.and_eq_true, List.forall_mem_cons, ih]

/-- A node is written in characters that may stand in a document if and
only if its values are. -/
theorem all_isChar_markup_iff {n : Node} (h : WellNamed n) : ∀ depth : Nat,
    (written (markup depth n)).all isChar = true ↔ EveryValue Printable n := by
  induction h with
  | @intro n htag hattributes _ ih =>
      intro depth
      have hbody := all_isChar_tagBody_iff htag hattributes
      have hchildren : (∀ child ∈ n.children,
            (written (markup (depth + 1) child)).all isChar = true)
          ↔ ∀ child ∈ n.children, EveryValue Printable child :=
        forall₂_congr fun child hchild => ih child hchild (depth + 1)
      have hmarks : isChar '<' = true ∧ isChar '/' = true ∧ isChar '>' = true
          ∧ isChar '\n' = true := by decide
      -- All that a node adds to its attributes and its children is marks and blanks.
      rw [EveryValue, every_iff, ← hbody]
      rcases n with ⟨tag, attributes, _ | ⟨child, children⟩⟩
      · simp [written_markup_leaf, emptyTag, all_isChar_indent, hmarks, tagBody]
      · have hwritten : (written (markup depth ⟨tag, attributes, child :: children⟩)).all isChar
            = ((tagBody ⟨tag, attributes, child :: children⟩).all isChar
              && (written (markupAll (depth + 1) (child :: children))).all isChar) := by
          simp [-List.all_eq_true, written_markup_cons, startTag, endTag, tagBody,
            all_isChar_indent, all_isChar_name htag, hmarks]
        rw [hwritten, Bool.and_eq_true, all_markupAll_iff, hchildren]
        rfl

theorem isChar_document_iff {root : Node} (h : WellNamed root) :
    (∀ c ∈ document root, isChar c = true) ↔ EveryValue Printable root := by
  have hdeclaration : (declaration ++ ['\n']).all isChar = true := by decide
  have hdocument : document root = declaration ++ ['\n'] ++ written (markup 0 root) := by
    simp [document, written]
  rw [← List.all_eq_true, hdocument, List.all_append, hdeclaration, Bool.true_and,
    all_isChar_markup_iff h]

/-! ## Documents by the grammar -/

theorem isBlank_of_mem_indent {depth : Nat} : ∀ c ∈ indent depth, isBlank c = true := by
  intro c hc
  rw [List.eq_of_mem_replicate hc]
  rfl

theorem attributes_written {attributes : List (String × String)}
    (h : ∀ a ∈ attributes, IsName a.1) :
    Attributes (attributes.flatMap writtenAttribute)
      (attributes.map fun a => (a.1, asRead a.2)) := by
  induction attributes with
  | nil => exact .nil
  | cons a attributes ih =>
      have hwritten : (a :: attributes).flatMap writtenAttribute
          = [' '] ++ a.1.toList ++ '=' :: '\x22' :: escaped a.2.toList
            ++ '\x22' :: attributes.flatMap writtenAttribute := by
        simp [writtenAttribute]
      have hliteral : ∀ c ∈ escaped a.2.toList, c ≠ '<' ∧ c ≠ '\x22' := fun c hc =>
        ⟨not_lt_of_mem_escaped c hc, of_decide_eq_true (not_quote_of_mem_escaped c hc)⟩
      have hvalue : recovered? (escaped a.2.toList) = some (asRead a.2).toList := by
        rw [recovered?_escaped, asRead, String.toList_ofList]
      rw [hwritten]
      exact .cons (List.cons_ne_nil _ _) (List.forall_mem_singleton.mpr rfl)
        (h a (List.mem_cons_self ..)) hliteral hvalue
        (ih fun b hb => h b (List.mem_cons_of_mem _ hb))

/-- Nodes of which each is written as an element are written as contents. -/
theorem content_markupAll {depth : Nat} {children : List Node}
    (h : ∀ child ∈ children, ∃ body, written (markup depth child) = indent depth ++ body ++ ['\n']
      ∧ Element body (nodeAsRead child))
    {tail : List Char} (htail : ∀ c ∈ tail, isBlank c = true) :
    Content ('\n' :: written (markupAll depth children) ++ tail) (nodesAsRead children) := by
  induction children with
  | nil =>
      refine .blank fun c hc => ?_
      rcases List.mem_cons.mp hc with rfl | hc
      · rfl
      · exact htail c hc
  | cons child children ih =>
      obtain ⟨body, hwritten, helement⟩ := h child (List.mem_cons_self ..)
      have hrest := ih fun n hn => h n (List.mem_cons_of_mem _ hn)
      have hcs : '\n' :: written (markupAll depth (child :: children)) ++ tail
          = ('\n' :: indent depth) ++ body
            ++ ('\n' :: written (markupAll depth children) ++ tail) := by
        have happend := written_append (markup depth child) (markupAll depth children) tail
        rw [markupAll, List.cons_append, happend, hwritten]
        simp
      rw [hcs]
      refine .element (fun c hc => ?_) helement hrest
      rcases List.mem_cons.mp hc with rfl | hc
      · rfl
      · exact isBlank_of_mem_indent c hc

/-- A node is written as an element, on lines that begin at its depth. -/
theorem element_markup {n : Node} (hnamed : WellNamed n) (hapart : NamedApart n) :
    ∀ depth : Nat, ∃ element, written (markup depth n) = indent depth ++ element ++ ['\n']
      ∧ Element element (nodeAsRead n) := by
  induction hnamed with
  | @intro n htag hattributes _ ih =>
      intro depth
      obtain ⟨hnodup, hapart⟩ := hapart
      have hwritten := attributes_written hattributes
      have hnodup : ((n.attributes.map fun a => (a.1, asRead a.2)).map Prod.fst).Nodup := by
        rwa [List.map_map]
      rcases n with ⟨tag, attributes, _ | ⟨child, children⟩⟩
      · exact ⟨_, written_markup_leaf .., .empty htag hwritten hnodup⟩
      · -- The blanks in front of the closing tag end the contents.
        have hinner := content_markupAll
          (fun n hn => ih n hn (hapart n hn) (depth + 1)) (@isBlank_of_mem_indent depth)
        refine ⟨_, ?_, .paired htag hwritten hnodup hinner⟩
        rw [written_markup_cons]
        simp [startTag, endTag, tagBody]

theorem isDocument_nodeAsRead {root : Node} (hnamed : WellNamed root) (hapart : NamedApart root)
    (hprintable : EveryValue Printable root) : IsDocument (document root) (nodeAsRead root) := by
  obtain ⟨element, hwritten, helement⟩ := element_markup hnamed hapart 0
  refine ⟨(isChar_document_iff hnamed).mpr hprintable, ['\n'], element, ['\n'], ?_,
    List.forall_mem_singleton.mpr rfl, helement, List.forall_mem_singleton.mpr rfl⟩
  have hlines : written (markup 0 root) = element ++ ['\n'] := hwritten
  rw [document, List.flatMap_cons, ← written, hlines]
  simp

theorem isDocumentFile_bytes_iff {root : Node} (hnamed : WellNamed root)
    (hapart : NamedApart root) (read : Node) :
    IsDocumentFile (bytes root) read ↔ EveryValue Printable root ∧ read = nodeAsRead root := by
  have hdecoded : ∀ text, String.fromUTF8? (bytes root) = some text →
      text.toList = document root := by
    intro written hwritten
    rw [fromUTF8?_bytes, Option.some_inj] at hwritten
    rw [← hwritten, text, String.toList_ofList]
  constructor
  · rintro ⟨text, htext, hdocument⟩
    rw [hdecoded text htext] at hdocument
    have hprintable := (isChar_document_iff hnamed).mp hdocument.characters
    exact ⟨hprintable,
      isDocument_unique hdocument (isDocument_nodeAsRead hnamed hapart hprintable)⟩
  · rintro ⟨hprintable, rfl⟩
    refine ⟨text root, fromUTF8?_bytes root, ?_⟩
    rw [hdecoded _ (fromUTF8?_bytes root)]
    exact isDocument_nodeAsRead hnamed hapart hprintable

/-! ## Trees that are read as they are -/

theorem attributesAsRead_eq_self_iff {attributes : List (String × String)} :
    (attributes.map fun a => (a.1, asRead a.2)) = attributes
      ↔ ∀ a ∈ attributes, Unbroken a.2 := by
  have hsame (a : String × String) : (a.1, asRead a.2) = a ↔ Unbroken a.2 := by
    rw [Prod.ext_iff, and_iff_right rfl, asRead_eq_self_iff]
  have hmap : attributes.map (fun a => (a.1, asRead a.2)) = attributes.map id
      ↔ ∀ a ∈ attributes, (a.1, asRead a.2) = a := List.map_inj_left
  rw [List.map_id] at hmap
  exact hmap.trans (forall₂_congr fun a _ => hsame a)

mutual

theorem nodeAsRead_eq_self_iff : ∀ n : Node, nodeAsRead n = n ↔ EveryValue Unbroken n
  | ⟨tag, attributes, children⟩ => by
      rw [nodeAsRead, EveryValue, every_iff, Node.mk.injEq, attributesAsRead_eq_self_iff,
        nodesAsRead_eq_self_iff children]
      simp [EveryValue]

theorem nodesAsRead_eq_self_iff : ∀ nodes : List Node,
    nodesAsRead nodes = nodes ↔ ∀ n ∈ nodes, EveryValue Unbroken n
  | [] => by simp [nodesAsRead]
  | n :: rest => by
      rw [nodesAsRead, List.cons.injEq, nodeAsRead_eq_self_iff n, nodesAsRead_eq_self_iff rest,
        List.forall_mem_cons]

end

end Xml

/-! ## Reports -/

namespace Report

open Xml Recording

variable {σ : Type} {sink : EventSink σ} {rule : ExportRule} {source : Source} {s : σ} {root : Node}

theorem namedApart_of_shaped (h : Every IsShaped root) : NamedApart root := by
  have hnodup : ∀ shape ∈ shapes, shape.2.Nodup := by decide
  exact h.imp fun n hn => hnodup _ hn

/-- **Where a report conforms, and what it is read as.** A report's
characters may all stand in a document if and only if its values are
printable; then its file is a document, and otherwise none. It is read
with each value as that value is read alone, so it is read as the report
if and only if all values are on one line and hold no tab. -/
theorem build_conforms_iff (h : ((build sink rule source).runFrom s).1 = .ok root) :
    ((∀ c ∈ document root, isChar c = true) ↔ EveryValue Printable root)
      ∧ (∀ value, recovered? (escaped value.toList) = some value.toList ↔ Unbroken value)
      ∧ (∀ read, IsDocumentFile (bytes root) read
          ↔ EveryValue Printable root ∧ read = nodeAsRead root)
      ∧ (IsDocumentFile (bytes root) root
          ↔ EveryValue Printable root ∧ EveryValue Unbroken root) := by
  have hnamed := build_wellNamed h
  have hread := isDocumentFile_bytes_iff hnamed (namedApart_of_shaped (build_shaped h))
  refine ⟨isChar_document_iff hnamed, fun value => ?_, hread, ?_⟩
  · rw [recovered?_escaped, Option.some_inj, ← asRead_eq_self_iff, asRead, String.ext_iff,
      String.toList_ofList]
  · rw [hread, eq_comm, nodeAsRead_eq_self_iff]

theorem build_of_no_modules (name : String) :
    ((build .memory (.within none) (.ofModules name [])).runFrom []).1
      = .ok ⟨"Assembly", [("Name", name)], []⟩ := by
  have hsource : (Source.ofModules name []).Offers name [] := ⟨rfl, rfl⟩
  exact congrArg Prod.fst (build_accepted hsource EventSink.memory_acceptsAll _ [])

theorem everyValue_of_no_modules {p : String → Prop} {name : String} :
    EveryValue p ⟨"Assembly", [("Name", name)], []⟩ ↔ p name := by
  simp [EveryValue, every_iff (n := ⟨"Assembly", [("Name", name)], []⟩)]

/-- An assembly may have a tab in its name, and is read with a space there. -/
theorem build_conforms_with_tab :
    ((build .memory (.within none) (.ofModules "a\tb" [])).runFrom []).1
        = .ok ⟨"Assembly", [("Name", "a\tb")], []⟩
      ∧ IsDocumentFile (bytes ⟨"Assembly", [("Name", "a\tb")], []⟩)
          ⟨"Assembly", [("Name", "a b")], []⟩
      ∧ ¬ EveryValue Unbroken ⟨"Assembly", [("Name", "a\tb")], []⟩ := by
  have hbuilt := build_of_no_modules "a\tb"
  obtain ⟨-, -, hread, hself⟩ := build_conforms_iff hbuilt
  have hprintable : EveryValue Printable ⟨"Assembly", [("Name", "a\tb")], []⟩ :=
    everyValue_of_no_modules.mpr
      (List.all_eq_true.mp (by decide : "a\tb".toList.all isChar = true))
  refine ⟨hbuilt, (hread _).mpr ⟨hprintable, rfl⟩, fun hunbroken => ?_⟩
  exact (everyValue_of_no_modules.mp hunbroken '\t' (by decide)).1 rfl

/-- An assembly whose name has a tab in it is not read as it is, and one
whose name has a control character in it cannot be read. -/
theorem names_that_break_documents :
    (∃ root, ((build .memory (.within none) (.ofModules "a\tb" [])).runFrom []).1 = .ok root
        ∧ root.attributes = [("Name", "a\tb")]
        ∧ recovered? (escaped "a\tb".toList) = some "a b".toList
        ∧ ¬ IsDocumentFile (bytes root) root)
      ∧ ∃ root, ((build .memory (.within none) (.ofModules "\x01" [])).runFrom []).1 = .ok root
        ∧ ¬ (∀ c ∈ document root, isChar c = true)
        ∧ ∀ read, ¬ IsDocumentFile (bytes root) read := by
  have hread (name : String) := isDocumentFile_bytes_iff
    (build_wellNamed (build_of_no_modules name))
    (namedApart_of_shaped (build_shaped (build_of_no_modules name)))
  refine ⟨⟨_, build_of_no_modules "a\tb", rfl, by decide, fun hself => ?_⟩,
    ⟨_, build_of_no_modules "\x01", fun hchars => ?_, fun read hfile => ?_⟩⟩
  · have heq := ((hread "a\tb" _).mp hself).2
    exact absurd heq (by simp [nodeAsRead, asRead, spaced, lineEnds, isBlank])
  · have hname := everyValue_of_no_modules.mp
      ((isChar_document_iff (build_wellNamed (build_of_no_modules "\x01"))).mp hchars)
    exact absurd (hname '\x01' (by decide)) (by decide)
  · have hname := everyValue_of_no_modules.mp ((hread "\x01" read).mp hfile).1
    exact absurd (hname '\x01' (by decide)) (by decide)

end Report

end SurfaceReport
