import SurfaceReport.Proofs.DisplayNames

/-!
# How arrays, pointers and references are displayed

An array, a pointer or a reference is called like the type it is made of,
with a suffix behind the full name (`fullName_decorated`). No suffix holds
a dot or an arity marker, so it depends on the name of the innermost type
alone what becomes of all of them (`displayName_append_suffix`): they are
dropped with the arity if there is one to be cut at, and otherwise they
stay behind what is displayed of the innermost type. Only where its name
ends in a dot are they all that is displayed (`decorated_displays`).
-/

namespace SurfaceReport

/-! ## Suffixes -/

namespace Name

/-- A text that neither qualifies what it stands behind nor gives it an
arity. -/
structure IsSuffix (text : String) : Prop where
  plain : ¬HasArity text
  undotted : '.' ∉ text.toList

variable {name text other : String}

theorem IsSuffix.append (htext : IsSuffix text) (hother : IsSuffix other) :
    IsSuffix (text ++ other) := by
  constructor
  · rw [HasArity, String.toList_append, List.mem_append, not_or]
    exact ⟨htext.plain, hother.plain⟩
  · rw [String.toList_append, List.mem_append, not_or]
    exact ⟨htext.undotted, hother.undotted⟩

theorem isSuffix_join {texts : List String} (h : ∀ text ∈ texts, IsSuffix text) :
    IsSuffix (String.join texts) := by
  induction texts with
  | nil => exact ⟨by decide, by decide⟩
  | cons text texts ih =>
      rw [List.forall_mem_cons] at h
      rw [String.join_cons]
      exact h.1.append (ih h.2)

theorem afterLastDot_append_of_undotted {name rest : List Char} (hname : name.getLast? ≠ some '.')
    (hrest : '.' ∉ rest) : afterLastDot (name ++ rest) = afterLastDot name ++ rest := by
  obtain ⟨qualifier, tail, rfl, hqualifier, htail⟩ := exists_qualifier name
  by_cases hnil : tail = []
  · subst hnil
    rw [List.append_nil] at hname ⊢
    rw [hqualifier.resolve_right hname, List.nil_append]
    exact afterLastDot_of_isBare (isBare_of_not_mem hrest)
  · rw [afterLastDot_append hqualifier hnil htail, List.append_assoc]
    refine afterLastDot_append hqualifier (List.append_ne_nil_of_left_ne_nil hnil _) ?_
    rw [List.mem_append, not_or]
    exact ⟨htail, hrest⟩

/-- What is displayed of a name with a suffix, where nothing is cut. -/
theorem displayName_append_suffix (hname : ¬IsCut name) (htext : IsSuffix text) :
    (name.toList.getLast? ≠ some '.' → displayName (name ++ text) = displayName name ++ text)
      ∧ (name.toList.getLast? = some '.' → text ≠ "" → displayName (name ++ text) = text) := by
  have hboth : displayName (name ++ text)
      = .ofList (afterLastDot (name.toList ++ text.toList)) := by
    rw [displayName_eq_afterLastDot, withoutArity_of_not_isCut (not_isCut_append hname htext.plain),
      String.toList_append]
  constructor
  · intro hlast
    rw [hboth, afterLastDot_append_of_undotted hlast htext.undotted, displayName_eq_afterLastDot,
      withoutArity_of_not_isCut hname, String.ofList_append, String.ofList_toList]
  · intro hlast hne
    rw [hboth, afterLastDot_append (.inr hlast) (mt String.toList_eq_nil_iff.mp hne)
      htext.undotted, String.ofList_toList]

end Name

/-! ## Decorated types -/

/-- What is made of a type without giving it a name of its own. -/
inductive Decoration where
  | vector
  | array (rank : UInt32)
  | pointer
  | byRef
  deriving DecidableEq, Repr

namespace Decoration

def wrap : Decoration → Signature → Signature
  | vector, s => .vector s
  | array rank, s => .array s rank
  | pointer, s => .pointer s
  | byRef, s => .byRef s

def suffix : Decoration → String
  | vector => "[]"
  | array rank => rankSuffix rank
  | pointer => "*"
  | byRef => "&"

theorem isSuffix_suffix (d : Decoration) : Name.IsSuffix d.suffix := by
  cases d with
  | vector | pointer | byRef => exact ⟨by decide, by decide⟩
  | array rank =>
      have hmem {c : Char} (hc : c ≠ '[' ∧ c ≠ ',' ∧ c ≠ ']') : c ∉ (rankSuffix rank).toList := by
        simp [rankSuffix, hc]
      exact ⟨hmem (by decide), hmem (by decide)⟩

/-- What the decorations put behind a name, the innermost first. -/
def suffixes (ds : List Decoration) : String := String.join (ds.map suffix)

theorem isSuffix_suffixes (ds : List Decoration) : Name.IsSuffix (suffixes ds) := by
  refine Name.isSuffix_join fun text htext => ?_
  obtain ⟨d, -, rfl⟩ := List.mem_map.mp htext
  exact isSuffix_suffix d

/-- The suffixes of a type that may, besides, be passed by reference. -/
def passedSuffixes (ds : List Decoration) (byReference : Bool) : String :=
  suffixes ds ++ if byReference then "&" else ""

theorem isSuffix_passedSuffixes (ds : List Decoration) (byReference : Bool) :
    Name.IsSuffix (passedSuffixes ds byReference) := by
  refine (isSuffix_suffixes ds).append ?_
  cases byReference <;> exact ⟨by decide, by decide⟩

end Decoration

namespace Signature

open Name Decoration

/-- The type in its decorations, the innermost first. -/
def decorated (s : Signature) (ds : List Decoration) : Signature :=
  ds.foldl (fun inner d => d.wrap inner) s

theorem fullName_wrap (scope : Scope) (d : Decoration) (s : Signature) :
    (d.wrap s).fullName scope = s.fullName scope ++ d.suffix := by
  cases d <;> rfl

theorem fullName_decorated (scope : Scope) (s : Signature) (ds : List Decoration) :
    (s.decorated ds).fullName scope = s.fullName scope ++ suffixes ds := by
  -- From the inside out: each decoration goes behind what the inner ones have put there.
  induction ds generalizing s with
  | nil =>
      rw [suffixes, List.map_nil, String.join_nil, String.append_empty]
      rfl
  | cons d ds ih =>
      have hinner := ih (d.wrap s)
      rw [fullName_wrap, String.append_assoc] at hinner
      rw [suffixes, List.map_cons, String.join_cons]
      exact hinner

theorem passedName_decorated (scope : Scope) (s : Signature) (ds : List Decoration)
    (byReference : Bool) :
    (s.decorated ds).passedName scope byReference
      = s.fullName scope ++ passedSuffixes ds byReference := by
  rw [passedName, fullName_decorated, passedSuffixes]
  cases byReference with
  | false => rw [if_neg Bool.false_ne_true, if_neg Bool.false_ne_true, String.append_empty]
  | true => rw [if_pos rfl, if_pos rfl, String.append_assoc]

/-- **What becomes of decorations.** They are dropped where the name of the
innermost type is cut, and stay otherwise. -/
theorem decorated_displays (scope : Scope) (s : Signature) (ds : List Decoration)
    (byReference : Bool) :
    let name := s.fullName scope
    let shown := displayName ((s.decorated ds).passedName scope byReference)
    (IsCut name → shown = displayName name)
      ∧ (¬IsCut name → name.toList.getLast? ≠ some '.' →
        shown = displayName name ++ passedSuffixes ds byReference)
      ∧ (¬IsCut name → name.toList.getLast? = some '.' → passedSuffixes ds byReference ≠ "" →
        shown = passedSuffixes ds byReference) := by
  intro name shown
  have hshown : shown = displayName (name ++ passedSuffixes ds byReference) :=
    congrArg displayName (passedName_decorated scope s ds byReference)
  have hsuffix := isSuffix_passedSuffixes ds byReference
  rw [hshown]
  refine ⟨fun hcut => displayName_append_of_isCut hcut _, fun hcut => ?_, fun hcut => ?_⟩
  · exact (displayName_append_suffix hcut hsuffix).1
  · exact (displayName_append_suffix hcut hsuffix).2

/-- Arrays of pointers to bags, to slots and to what stands for nothing. -/
theorem arrays_of_bags_display :
    let scope : Scope := ⟨fun token => if token = ⟨1⟩ then some "Game.Bag\x601"
      else if token = ⟨2⟩ then some "Game.Slot" else none, [], []⟩
    let ds := [Decoration.pointer, .array 3, .vector]
    let shown (s : Signature) := displayName ((s.decorated ds).passedName scope true)
    shown (instantiation (named .classType ⟨1⟩) [primitive .string]) = "Bag"
      ∧ shown (named .valueType ⟨2⟩) = "Slot*[,,][]&"
      ∧ shown (named .classType ⟨3⟩) = "*[,,][]&" := by
  intro scope ds shown
  refine ⟨?_, ?_, ?_⟩
  · obtain ⟨hdropped, -, -⟩ := decorated_displays scope
      (instantiation (named .classType ⟨1⟩) [primitive .string]) ds true
    exact (hdropped (by decide)).trans (by decide +kernel)
  · obtain ⟨-, hkept, -⟩ := decorated_displays scope (named .valueType ⟨2⟩) ds true
    exact (hkept (by decide) (by decide)).trans (by decide +kernel)
  · obtain ⟨-, hkept, -⟩ := decorated_displays scope (named .classType ⟨3⟩) ds true
    exact (hkept (by decide) (by decide)).trans (by decide +kernel)

end Signature

end SurfaceReport
