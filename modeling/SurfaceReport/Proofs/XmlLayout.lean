import SurfaceReport.Proofs.XmlValues

/-!
# How a document is laid out

The layout of a document is said of its lines, one after the other, and
without going through the tree: `Lays` only keeps the nodes that are
open, the innermost first. A line is indented by as many of them as there
are. It opens one more node, or closes the innermost one, or is a node of
its own; and each node has its line where exactly the nodes around it are
open (`visits`).

That leaves no choice. A node that was closed cannot be open later
(`Lays.awaits`), so the next visit tells whether the next line closes a
node, and there is one way to lay a tree out (`Lays.unique`). What the
lines of a document have in common is then an induction over lines, with
what is open as the state that each of them changes.
-/

namespace SurfaceReport

namespace Xml

/-! ## Visits -/

mutual

/-- The nodes of a tree in document order, each with the nodes around it,
the innermost first. -/
def visits (around : List Node) : Node → List (List Node × Node)
  | ⟨tag, attributes, children⟩ =>
    (around, ⟨tag, attributes, children⟩)
      :: visitsAll (⟨tag, attributes, children⟩ :: around) children

def visitsAll (around : List Node) : List Node → List (List Node × Node)
  | [] => []
  | n :: rest => visits around n ++ visitsAll around rest

end

theorem visits_eq (around : List Node) (n : Node) :
    visits around n = (around, n) :: visitsAll (n :: around) n.children := by
  cases n
  rw [visits]

theorem forall_mem_visitsAll {p : Node → Prop} {around children : List Node}
    (h : ∀ child ∈ children, ∀ visit ∈ visits around child, p visit.2) :
    ∀ visit ∈ visitsAll around children, p visit.2 := by
  induction children with
  | nil => exact fun visit hvisit => absurd hvisit List.not_mem_nil
  | cons child children ih =>
      rw [List.forall_mem_cons] at h
      rw [visitsAll, List.forall_mem_append]
      exact ⟨h.1, ih h.2⟩

theorem forall_mem_visits {p : Node → Prop} {root : Node} (h : Every p root) :
    ∀ around, ∀ visit ∈ visits around root, p visit.2 := by
  induction h with
  | @intro n self _ ih =>
      intro around
      rw [visits_eq, List.forall_mem_cons]
      exact ⟨self, forall_mem_visitsAll fun child hchild => ih child hchild (n :: around)⟩

/-! ## Lines -/

/-- With the nodes of `opened` open, the innermost first, these lines make
these visits and leave the nodes of `later` open. -/
inductive Lays : List Node → List (List Node × Node) → List (List Char) → List Node → Prop where
  | done (opened : List Node) : Lays opened [] [] opened
  /-- A node without children is one line. -/
  | empty {opened later : List Node} {n : Node} {visits : List (List Node × Node)}
      {lines : List (List Char)} (childless : n.children = [])
      (rest : Lays opened visits lines later) :
      Lays opened ((opened, n) :: visits) ((indent opened.length ++ emptyTag n) :: lines) later
  /-- A node with children is opened, and is open for the lines behind. -/
  | start {opened later : List Node} {n : Node} {visits : List (List Node × Node)}
      {lines : List (List Char)} (parent : n.children ≠ [])
      (rest : Lays (n :: opened) visits lines later) :
      Lays opened ((opened, n) :: visits) ((indent opened.length ++ startTag n) :: lines) later
  /-- The innermost node is closed. -/
  | close {opened later : List Node} {n : Node} {visits : List (List Node × Node)}
      {lines : List (List Char)} (rest : Lays opened visits lines later) :
      Lays (n :: opened) visits ((indent opened.length ++ endTag n) :: lines) later

/-! ## A tree is laid out -/

mutual

/-- In front of any lines, those of a node visit it and all below it. -/
theorem lays_markup : ∀ (n : Node) {opened later : List Node}
    {rest : List (List Node × Node)} {lines : List (List Char)}, Lays opened rest lines later →
    Lays opened (visits opened n ++ rest) (markup opened.length n ++ lines) later
  | ⟨tag, attributes, []⟩, opened, later, rest, lines, h =>
      .empty (n := ⟨tag, attributes, []⟩) rfl h
  | ⟨tag, attributes, child :: children⟩, opened, later, rest, lines, h => by
      -- The closing line is the first that finds only the nodes around this one open.
      have hinner := lays_markupAll (child :: children)
        (h.close (n := ⟨tag, attributes, child :: children⟩))
      rw [markup_cons, visits_eq, List.append_assoc, List.append_assoc]
      exact .start (n := ⟨tag, attributes, child :: children⟩) (List.cons_ne_nil _ _) hinner

theorem lays_markupAll : ∀ (children : List Node) {opened later : List Node}
    {rest : List (List Node × Node)} {lines : List (List Char)}, Lays opened rest lines later →
    Lays opened (visitsAll opened children ++ rest) (markupAll opened.length children ++ lines)
      later
  | [], _, _, _, _, h => h
  | n :: children, opened, later, rest, lines, h => by
      rw [visitsAll, markupAll, List.append_assoc, List.append_assoc]
      exact lays_markup n (lays_markupAll children h)

end

/-! ## There is one way to lay a tree out -/

/-- The nodes that are open when the next visit is made, or in the end,
are open already. -/
theorem Lays.awaits {opened later : List Node} {visits : List (List Node × Node)}
    {lines : List (List Char)} (h : Lays opened visits lines later) :
    visits.head?.elim later Prod.fst <:+ opened := by
  induction h with
  | done opened => exact List.suffix_rfl
  | empty _ _ _ => exact List.suffix_rfl
  | start _ _ _ => exact List.suffix_rfl
  | close _ ih => exact ih.trans (List.suffix_cons _ _)

theorem not_awaits_closed {n : Node} {opened later : List Node} {visits : List (List Node × Node)}
    {lines : List (List Char)} (h : Lays opened visits lines later) :
    visits.head?.elim later Prod.fst ≠ n :: opened := by
  intro heq
  have hlength := h.awaits.length_le
  rw [heq, List.length_cons] at hlength
  omega

theorem Lays.unique {opened later : List Node} {visits : List (List Node × Node)}
    {lines lines' : List (List Char)} (h : Lays opened visits lines later)
    (h' : Lays opened visits lines' later) : lines = lines' := by
  induction h generalizing lines' with
  | done opened =>
      cases h' with
      | done => rfl
      | close rest => exact absurd rfl (not_awaits_closed rest)
  | empty childless _ ih =>
      cases h' with
      | empty _ rest => rw [ih rest]
      | start parent _ => exact absurd childless parent
      | close rest => exact absurd rfl (not_awaits_closed rest)
  | start parent _ ih =>
      cases h' with
      | empty childless _ => exact absurd childless parent
      | start _ rest => rw [ih rest]
      | close rest => exact absurd rfl (not_awaits_closed rest)
  | close hrest ih =>
      cases h' with
      | done => exact absurd rfl (not_awaits_closed hrest)
      | empty => exact absurd rfl (not_awaits_closed hrest)
      | start => exact absurd rfl (not_awaits_closed hrest)
      | close rest => rw [ih rest]

/-! ## What the layout tells of the lines -/

/-- Neither the tag of the node nor its attributes hold a line feed. -/
def OnOneLine (n : Node) : Prop :=
  '\n' ∉ n.tag.toList ∧ ∀ a ∈ n.attributes, '\n' ∉ a.1.toList ∧ '\n' ∉ a.2.toList

def isLeaf (visit : List Node × Node) : Bool := visit.2.children.isEmpty

/-- Every node that gets opened gets closed, so that what is open in the
end was open before. -/
theorem Lays.length_eq {opened later : List Node} {visits : List (List Node × Node)}
    {lines : List (List Char)} (h : Lays opened visits lines later) :
    lines.length + later.length
      = opened.length + visits.countP isLeaf + 2 * visits.countP (!isLeaf ·) := by
  induction h with
  | done opened => simp
  | empty childless _ ih =>
      simp only [List.length_cons, List.countP_cons, isLeaf, childless] at ih ⊢
      simp
      omega
  | start parent _ ih =>
      simp only [List.length_cons, List.countP_cons, isLeaf] at ih ⊢
      simp [parent]
      omega
  | close _ ih =>
      simp only [List.length_cons] at ih ⊢
      omega

theorem lineFeed_not_mem_escaped {value : List Char} (h : '\n' ∉ value) : '\n' ∉ escaped value := by
  intro hmem
  refine (forall_escaped (p := (· ≠ '\n')) (by simp [specials]) (by simp [entityChars])
    value).mpr ?_ '\n' hmem rfl
  rintro c hc rfl
  exact h hc

theorem lineFeed_not_mem_tagBody {n : Node} (h : OnOneLine n) : '\n' ∉ tagBody n := by
  rw [tagBody, List.mem_append, List.mem_flatMap]
  rintro (htag | ⟨a, ha, hwritten⟩)
  · exact h.1 htag
  · obtain ⟨hname, hvalue⟩ := h.2 a ha
    have := lineFeed_not_mem_escaped hvalue
    simp [writtenAttribute, hname, this] at hwritten

theorem lineFeed_not_mem_indent (depth : Nat) : '\n' ∉ indent depth := by
  intro h
  exact absurd (List.eq_of_mem_replicate h) (by decide)

theorem Lays.lineFeed_not_mem {opened later : List Node} {visits : List (List Node × Node)}
    {lines : List (List Char)} (h : Lays opened visits lines later)
    (hopened : ∀ n ∈ opened, OnOneLine n) (hvisits : ∀ visit ∈ visits, OnOneLine visit.2) :
    ∀ line ∈ lines, '\n' ∉ line := by
  induction h with
  | done opened => exact fun line hline => absurd hline List.not_mem_nil
  | @empty opened later n visits lines childless _ ih =>
      rw [List.forall_mem_cons] at hvisits ⊢
      refine ⟨?_, ih hopened hvisits.2⟩
      have := lineFeed_not_mem_tagBody hvisits.1
      simp [emptyTag, this, lineFeed_not_mem_indent]
  | @start opened later n visits lines parent _ ih =>
      rw [List.forall_mem_cons] at hvisits ⊢
      refine ⟨?_, ih (List.forall_mem_cons.mpr ⟨hvisits.1, hopened⟩) hvisits.2⟩
      have := lineFeed_not_mem_tagBody hvisits.1
      simp [startTag, this, lineFeed_not_mem_indent]
  | @close opened later n visits lines _ ih =>
      rw [List.forall_mem_cons] at hopened ⊢
      refine ⟨?_, ih hopened.2 hvisits⟩
      simp [endTag, hopened.1.1, lineFeed_not_mem_indent]

/-- **How a document is laid out.** Where no tag and no attribute breaks a
line, a document is the declaration and the lines that lay the tree out,
each ended once. Those are the only ones that do so, and there is one for
a node without children and two for a node with some. -/
theorem document_layout {root : Node} (h : Every OnOneLine root) :
    ∃ lines, bytes root = (String.ofList (written (declaration :: lines))).toUTF8
      ∧ (∀ line ∈ declaration :: lines, '\n' ∉ line)
      ∧ (∀ lines', Lays [] (visits [] root) lines' [] ↔ lines' = lines)
      ∧ (declaration :: lines).length
        = 1 + (visits [] root).countP isLeaf + 2 * (visits [] root).countP (!isLeaf ·) := by
  have hlays : Lays [] (visits [] root) (markup 0 root) [] := by
    simpa using lays_markup root (.done [])
  refine ⟨markup 0 root, rfl, ?_, fun lines' => ⟨fun h' => h'.unique hlays, ?_⟩, ?_⟩
  · rw [List.forall_mem_cons]
    exact ⟨by decide, hlays.lineFeed_not_mem (fun n hn => absurd hn List.not_mem_nil)
      (forall_mem_visits h [])⟩
  · rintro rfl
    exact hlays
  · have hlength := hlays.length_eq
    simp only [List.length_nil, List.length_cons] at hlength ⊢
    omega

theorem every_childless {p : Node → Prop} {n : Node} (childless : n.children = []) (h : p n) :
    Every p n :=
  .intro h fun _ hchild => absurd (childless ▸ hchild) List.not_mem_nil

/-- A node with children between two without. -/
def mixedSiblings : Node :=
  ⟨"Assembly", [("Name", "Game")],
    [⟨"Type", [("FullName", "A")], []⟩,
      ⟨"Type", [("FullName", "B")], [⟨"Field", [("Name", "x")], []⟩]⟩,
      ⟨"Type", [("FullName", "C")], []⟩]⟩

theorem layout_of_mixed_siblings :
    Every OnOneLine mixedSiblings
      ∧ bytes mixedSiblings = (String.ofList (written
          ["<?xml version=\x221.0\x22 encoding=\x22utf-8\x22?>".toList,
            "<Assembly Name=\x22Game\x22>".toList,
            "  <Type FullName=\x22A\x22/>".toList,
            "  <Type FullName=\x22B\x22>".toList,
            "    <Field Name=\x22x\x22/>".toList,
            "  </Type>".toList,
            "  <Type FullName=\x22C\x22/>".toList,
            "</Assembly>".toList])).toUTF8 := by
  have honeLine : Every OnOneLine mixedSiblings := by
    refine .intro (by simp [mixedSiblings, OnOneLine]) ?_
    simp only [mixedSiblings, List.mem_cons, List.not_mem_nil, or_false, forall_eq_or_imp,
      forall_eq]
    refine ⟨every_childless rfl (by simp [OnOneLine]), .intro (by simp [OnOneLine]) ?_,
      every_childless rfl (by simp [OnOneLine])⟩
    simp only [List.mem_singleton, forall_eq]
    exact every_childless rfl (by simp [OnOneLine])
  refine ⟨honeLine, ?_⟩
  obtain ⟨lines, hbytes, -, honly, -⟩ := document_layout honeLine
  have hlays : Lays [] (visits [] mixedSiblings) _ [] :=
    .start (by decide) (.empty rfl (.start (by decide) (.empty rfl (.close (.empty rfl
      (.close (.done [])))))))
  rw [hbytes, ← (honly _).mp hlays]
  rfl

end Xml

end SurfaceReport
