import Mathlib.Data.List.Basic
import SurfaceReport.Members
import SurfaceReport.Name

/-!
# How nested types are displayed

The full name of a nested type is its namespace and then the names of the
types around it and its own, with a slash between each two
(`fullName_eq`). Displaying it drops the namespace, and it drops whatever
stands behind the first arity marker, be it the type's own or not
(`displayName_fullName`). So of a chain of types the names are shown up
to the first generic one (`displayName_eq`).

A type that is nested in a generic type is therefore displayed as the
type around it, and so is every other type in there. Only where no type
around them is generic do two types of different names look different
(`nested_displays`).
-/

namespace SurfaceReport

/-! ## Names and their arity -/

namespace Name

/-- The name tells how many parameters the type has. -/
def HasArity (name : String) : Prop := arityMarker ∈ name.toList

instance (name : String) : Decidable (HasArity name) := inferInstanceAs (Decidable (_ ∈ _))

def withoutArity (name : String) : String := .ofList (cutArity name.toList)

/-- What a type is called by itself. -/
structure IsSimple (name : String) : Prop where
  nonempty : name ≠ ""
  undotted : '.' ∉ name.toList
  /-- More is left of the name than its arity. -/
  named : name.toList.head? ≠ some arityMarker

instance (name : String) : Decidable (IsSimple name) :=
  decidable_of_iff (name ≠ "" ∧ '.' ∉ name.toList ∧ name.toList.head? ≠ some arityMarker)
    ⟨fun h => ⟨h.1, h.2.1, h.2.2⟩, fun h => ⟨h.nonempty, h.undotted, h.named⟩⟩

variable {name rest : String}

theorem cutArity_eq {name : List Char} (h : name.head? ≠ some arityMarker) :
    cutArity name = name.takeWhile (· ≠ arityMarker) := by
  cases name with
  | nil => rfl
  | cons c rest =>
      have hc : c ≠ arityMarker := fun hc => h (congrArg some hc)
      rw [cutArity, if_neg hc, List.takeWhile_cons_of_pos (by simpa using hc)]

theorem takeWhile_append_of_not_mem {c : Char} {front : List Char} (h : c ∉ front)
    (rest : List Char) :
    (front ++ rest).takeWhile (· ≠ c) = front ++ rest.takeWhile (· ≠ c) := by
  refine List.takeWhile_append_of_pos fun d hd => decide_eq_true ?_
  rintro rfl
  exact h hd

theorem cutArity_append {front rest : List Char} (h : arityMarker ∉ front)
    (hrest : rest.head? ≠ some arityMarker) :
    cutArity (front ++ rest) = front ++ cutArity rest := by
  have hwhole : (front ++ rest).head? ≠ some arityMarker := by
    cases front with
    | nil => exact hrest
    | cons c front =>
        intro hc
        obtain rfl : c = arityMarker := Option.some.inj hc
        exact h (List.mem_cons_self ..)
  rw [cutArity_eq hwhole, cutArity_eq hrest, takeWhile_append_of_not_mem h]

theorem cutArity_ne_nil {name : List Char} (h : name ≠ []) : cutArity name ≠ [] := by
  cases name with
  | nil => exact absurd rfl h
  | cons c rest =>
      rw [cutArity]
      split <;> exact List.cons_ne_nil _ _

theorem cutArity_subset (name : List Char) : cutArity name ⊆ name := by
  cases name with
  | nil => exact List.Subset.refl _
  | cons c rest =>
      rw [cutArity]
      split
      · exact List.Subset.refl _
      · exact List.cons_subset_cons c (List.takeWhile_subset _)

theorem withoutArity_of_not_hasArity (h : ¬HasArity name) : withoutArity name = name := by
  have hcut : cutArity (name.toList ++ []) = name.toList ++ [] := cutArity_append h (by simp)
  rw [List.append_nil] at hcut
  rw [withoutArity, hcut, String.ofList_toList]

theorem withoutArity_append (h : ¬HasArity name) (hrest : rest.toList.head? ≠ some arityMarker) :
    withoutArity (name ++ rest) = name ++ withoutArity rest := by
  rw [withoutArity, String.toList_append, cutArity_append h hrest, String.ofList_append,
    String.ofList_toList]
  rfl

theorem withoutArity_append_of_hasArity (h : HasArity name)
    (hname : name.toList.head? ≠ some arityMarker) :
    withoutArity (name ++ rest) = withoutArity name := by
  have hwhole : (name.toList ++ rest.toList).head? ≠ some arityMarker := by
    rwa [List.head?_append_of_ne_nil _ (List.ne_nil_of_mem h)]
  rw [withoutArity, withoutArity, String.toList_append, cutArity_eq hwhole, cutArity_eq hname]
  -- What is cut off begins with the first marker, which is in the name.
  obtain ⟨front, back, hsplit, hfront⟩ := List.eq_append_cons_of_mem h
  have hfirst (behind : List Char) :
      (front ++ arityMarker :: behind).takeWhile (· ≠ arityMarker) = front := by
    rw [takeWhile_append_of_not_mem hfront, List.takeWhile_cons_of_neg (by simp), List.append_nil]
  rw [hsplit, List.append_assoc, List.cons_append, hfirst, hfirst]

/-! ## What qualifies a name -/

theorem takeWhile_reverse_qualifier {qualifier : List Char}
    (hqualifier : qualifier = [] ∨ qualifier.getLast? = some '.') :
    qualifier.reverse.takeWhile (· ≠ '.') = [] := by
  rcases hqualifier with rfl | hlast
  · rfl
  · obtain ⟨front, rfl⟩ := List.getLast?_eq_some_iff.mp hlast
    rw [List.reverse_append, List.reverse_singleton, List.singleton_append]
    rfl

theorem afterLastDot_append {qualifier name : List Char}
    (hqualifier : qualifier = [] ∨ qualifier.getLast? = some '.') (hname : name ≠ [])
    (hdot : '.' ∉ name) : afterLastDot (qualifier ++ name) = name := by
  have hstops := takeWhile_reverse_qualifier hqualifier
  have htail : ((qualifier ++ name).reverse.takeWhile (· ≠ '.')).reverse = name := by
    rw [List.reverse_append, takeWhile_append_of_not_mem (mt List.mem_reverse.mp hdot), hstops,
      List.append_nil, List.reverse_reverse]
  unfold afterLastDot
  split
  case h_1 hnil => exact absurd (htail.symm.trans hnil) hname
  case h_2 => exact htail

/-- Only what stands behind a qualifier is displayed. -/
theorem simplify_append {qualifier name : List Char} (hmarker : arityMarker ∉ qualifier)
    (hqualifier : qualifier = [] ∨ qualifier.getLast? = some '.') (hname : name ≠ [])
    (hdot : '.' ∉ name) (hnamed : name.head? ≠ some arityMarker) :
    simplify (qualifier ++ name) = cutArity name := by
  rw [simplify, cutArity_append hmarker hnamed]
  exact afterLastDot_append hqualifier (cutArity_ne_nil hname)
    fun h => hdot (cutArity_subset name h)

end Name

namespace NestedName

open Name

/-- The types from the outermost on. -/
def names (n : NestedName) : List String := n.outermost :: n.inner

def qualifier (n : NestedName) : String := if n.ns.isEmpty then "" else n.ns ++ "."

theorem fullName_eq (n : NestedName) :
    n.fullName = n.qualifier ++ nestingMark.intercalate n.names := by
  have hfold (start : String) (inner : List String) :
      inner.foldl (fun outer name => outer ++ nestingMark ++ name) start
        = nestingMark.intercalate (start :: inner) := by
    induction inner generalizing start with
    | nil => rw [List.foldl_nil, String.intercalate_singleton]
    | cons name inner ih =>
        rw [List.foldl_cons, ih, String.intercalate_cons_append, String.intercalate_cons_cons]
  rw [fullName, hfold, qualifier, names]
  split
  · rw [String.empty_append]
  · rw [String.intercalate_cons_append]

/-! ## The names that are displayed -/

/-- The namespace has no arity, and the names are what types are called. -/
structure WellNamed (n : NestedName) : Prop where
  ns_plain : ¬HasArity n.ns
  simple : ∀ name ∈ n.names, IsSimple name

variable {n : NestedName} {names front inside : List String} {name other : String}

theorem names_ne_nil (n : NestedName) : n.names ≠ [] := List.cons_ne_nil _ _

/-- A chain of names begins with what its outermost type is called. -/
theorem named_intercalate (hnames : names ≠ []) (hsimple : ∀ name ∈ names, IsSimple name) :
    (nestingMark.intercalate names).toList ≠ []
      ∧ (nestingMark.intercalate names).toList.head? ≠ some arityMarker := by
  cases names with
  | nil => exact absurd rfl hnames
  | cons name rest =>
      have hname := hsimple name (List.mem_cons_self ..)
      have hne : name.toList ≠ [] := fun h => hname.nonempty (String.toList_eq_nil_iff.mp h)
      cases rest with
      | nil =>
          rw [String.intercalate_singleton]
          exact ⟨hne, hname.named⟩
      | cons next rest =>
          rw [String.intercalate_cons_cons, String.append_assoc, String.toList_append,
            List.head?_append_of_ne_nil _ hne]
          exact ⟨List.append_ne_nil_of_left_ne_nil hne _, hname.named⟩

theorem mem_intercalate {c : Char} (hc : c ∉ nestingMark.toList) :
    c ∈ (nestingMark.intercalate names).toList ↔ ∃ name ∈ names, c ∈ name.toList := by
  induction names with
  | nil => simp
  | cons name names ih =>
      by_cases hnames : names = []
      · subst hnames
        simp
      · rw [String.intercalate_cons_of_ne_nil hnames, String.toList_append, String.toList_append,
          List.mem_append, List.mem_append, ih]
        simp [hc]

theorem not_hasArity_append_mark (h : ¬HasArity name) : ¬HasArity (name ++ nestingMark) := by
  rw [HasArity, String.toList_append, List.mem_append, not_or]
  exact ⟨h, by decide⟩

theorem hasArity_intercalate_iff :
    HasArity (nestingMark.intercalate names) ↔ ∃ name ∈ names, HasArity name :=
  mem_intercalate (by decide)

theorem displayName_fullName (hn : n.WellNamed) :
    displayName n.fullName = withoutArity (nestingMark.intercalate n.names) := by
  have hmarker : arityMarker ∉ n.qualifier.toList := by
    unfold qualifier
    split
    · exact List.not_mem_nil
    · rw [String.toList_append, List.mem_append, not_or]
      exact ⟨hn.ns_plain, by decide⟩
  have hqualifier : n.qualifier.toList = [] ∨ n.qualifier.toList.getLast? = some '.' := by
    unfold qualifier
    split
    · exact .inl rfl
    · right
      rw [String.toList_append]
      exact List.getLast?_concat
  have hdot : '.' ∉ (nestingMark.intercalate n.names).toList := by
    rw [mem_intercalate (by decide)]
    rintro ⟨name, hname, hdot⟩
    exact (hn.simple name hname).undotted hdot
  obtain ⟨hne, hnamed⟩ := named_intercalate n.names_ne_nil hn.simple
  rw [displayName, fullName_eq, String.toList_append,
    simplify_append hmarker hqualifier hne hdot hnamed]
  rfl

theorem withoutArity_intercalate (hfront : ∀ enclosing ∈ front, ¬HasArity enclosing)
    (hsimple : ∀ enclosing ∈ front ++ name :: inside, IsSimple enclosing)
    (hname : HasArity name ∨ inside = []) :
    withoutArity (nestingMark.intercalate (front ++ name :: inside))
      = nestingMark.intercalate (front ++ [withoutArity name]) := by
  -- On the types in front of the one that ends the display: none of them is cut.
  induction front with
  | nil =>
      rw [List.nil_append, List.nil_append, String.intercalate_singleton]
      cases inside with
      | nil => rw [String.intercalate_singleton]
      | cons next inside =>
          have harity := hname.resolve_right (List.cons_ne_nil _ _)
          rw [String.intercalate_cons_cons, String.append_assoc]
          exact withoutArity_append_of_hasArity harity (hsimple name (List.mem_cons_self ..)).named
  | cons outer front ih =>
      rw [List.forall_mem_cons] at hfront
      rw [List.cons_append, List.forall_mem_cons] at hsimple
      have hnext : (nestingMark.intercalate (front ++ name :: inside)).toList.head?
          ≠ some arityMarker :=
        (named_intercalate (by simp) hsimple.2).2
      rw [List.cons_append, List.cons_append, String.intercalate_cons_of_ne_nil (by simp),
        String.intercalate_cons_of_ne_nil (by simp),
        withoutArity_append (not_hasArity_append_mark hfront.1) hnext, ih hfront.2 hsimple.2]

/-- Of a chain of types, the names are displayed up to the first generic one. -/
theorem displayName_eq (hn : n.WellNamed) (hnames : n.names = front ++ name :: inside)
    (hfront : ∀ enclosing ∈ front, ¬HasArity enclosing) (hname : HasArity name ∨ inside = []) :
    displayName n.fullName = nestingMark.intercalate (front ++ [withoutArity name]) := by
  rw [displayName_fullName hn, hnames]
  exact withoutArity_intercalate hfront (hnames ▸ hn.simple) hname

theorem displayName_nest (hn : n.WellNamed) (hname : IsSimple name) :
    displayName (n.nest name).fullName
      = if ∃ enclosing ∈ n.names, HasArity enclosing then displayName n.fullName
        else displayName n.fullName ++ nestingMark ++ withoutArity name := by
  have hnames : (n.nest name).names = n.names ++ [name] := rfl
  have hnest : (n.nest name).WellNamed := by
    refine ⟨hn.ns_plain, ?_⟩
    rw [hnames, List.forall_mem_append, List.forall_mem_singleton]
    exact ⟨hn.simple, hname⟩
  rw [displayName_fullName hnest, displayName_fullName hn, hnames,
    String.intercalate_append_of_ne_nil n.names_ne_nil (List.cons_ne_nil _ _),
    String.intercalate_singleton, String.append_assoc]
  have harity := @hasArity_intercalate_iff n.names
  split
  case isTrue h =>
    exact withoutArity_append_of_hasArity (harity.mpr h)
      (named_intercalate n.names_ne_nil hn.simple).2
  case isFalse h =>
    rw [withoutArity_of_not_hasArity (mt harity.mp h), ← String.append_assoc]
    exact withoutArity_append (not_hasArity_append_mark (mt harity.mp h)) hname.named

/-- **How nested types are displayed.** A type is displayed by its name
without the arity, behind the names of the types around it, if none of
them is generic. Otherwise what is displayed ends with the outermost
generic one. So two types that are nested in the same type look the same
exactly if some type around them is generic or they differ in their arity
at most. -/
theorem nested_displays (hn : n.WellNamed) :
    (∀ front name inside, n.names = front ++ name :: inside →
        (∀ enclosing ∈ front, ¬HasArity enclosing) → HasArity name ∨ inside = [] →
        displayName n.fullName = nestingMark.intercalate (front ++ [withoutArity name]))
      ∧ (∀ front name, n.names = front ++ [name] →
        (∀ enclosing ∈ front, ¬HasArity enclosing) →
        ∃ around, displayName n.fullName = around ++ withoutArity name)
      ∧ ∀ name other, IsSimple name → IsSimple other →
        (displayName (n.nest name).fullName = displayName (n.nest other).fullName
          ↔ (∃ enclosing ∈ n.names, HasArity enclosing)
            ∨ withoutArity name = withoutArity other) := by
  refine ⟨fun front name inside => displayName_eq hn, ?_, ?_⟩
  · intro front name hnames hfront
    rw [displayName_eq hn hnames hfront (.inr rfl)]
    by_cases hnil : front = []
    · exact ⟨"", by rw [hnil, List.nil_append, String.intercalate_singleton, String.empty_append]⟩
    · exact ⟨_, by rw [String.intercalate_append_of_ne_nil hnil (List.cons_ne_nil _ _),
        String.intercalate_singleton]⟩
  · intro name other hname hother
    rw [displayName_nest hn hname, displayName_nest hn hother]
    by_cases harity : ∃ enclosing ∈ n.names, HasArity enclosing
    · rw [if_pos harity, if_pos harity]
      exact iff_of_true rfl (.inl harity)
    · rw [if_neg harity, if_neg harity, String.append_right_inj, or_iff_right harity]

/-- A page of a slot of a player's bag, where slots are generic. -/
def pageOfSlot : NestedName := ⟨"Game", "Player", ["Bag", "Slot\x601", "Page\x601"]⟩

theorem page_of_slot_displays :
    pageOfSlot.WellNamed
      ∧ displayName pageOfSlot.fullName = "Player/Bag/Slot"
      ∧ displayName (pageOfSlot.nest "Line").fullName
        = displayName (pageOfSlot.nest "Word").fullName := by
  have hnamed : pageOfSlot.WellNamed := ⟨by decide, by decide⟩
  obtain ⟨hdisplay, -, hsame⟩ := nested_displays hnamed
  refine ⟨hnamed, ?_, ?_⟩
  · rw [hdisplay ["Player", "Bag"] "Slot\x601" ["Page\x601"] rfl (by decide) (.inl (by decide))]
    decide +kernel
  · exact (hsame "Line" "Word" (by decide) (by decide)).mpr (.inl (by decide))

/-- In a generic type, no nested type is displayed as itself. -/
theorem entry_of_pool_not_displayed :
    let pool : NestedName := ⟨"Game", "Pool\x601", []⟩
    (pool.nest "Entry").WellNamed ∧ (pool.nest "Slot").WellNamed
      ∧ displayName (pool.nest "Entry").fullName = "Pool"
      ∧ (¬∃ around, displayName (pool.nest "Entry").fullName = around ++ withoutArity "Entry")
      ∧ withoutArity "Entry" ≠ withoutArity "Slot"
      ∧ displayName (pool.nest "Entry").fullName = displayName (pool.nest "Slot").fullName := by
  intro pool
  have hentry : displayName (pool.nest "Entry").fullName = "Pool" := by decide +kernel
  have hslot : displayName (pool.nest "Slot").fullName = "Pool" := by decide +kernel
  refine ⟨⟨by decide, by decide⟩, ⟨by decide, by decide⟩, hentry, ?_, by decide +kernel,
    hentry.trans hslot.symm⟩
  rintro ⟨around, h⟩
  have hlength : "Pool".length = (around ++ withoutArity "Entry").length :=
    congrArg String.length (hentry.symm.trans h)
  have hfour : "Pool".length = 4 := by decide
  have hfive : (withoutArity "Entry").length = 5 := by decide +kernel
  rw [String.length_append, hfour, hfive] at hlength
  omega

end NestedName

end SurfaceReport
