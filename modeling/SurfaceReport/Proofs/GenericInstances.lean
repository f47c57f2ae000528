import SurfaceReport.Proofs.NestedNames
import SurfaceReport.Signature

/-!
# How generic types with arguments are displayed

The full name of a generic type with its arguments goes on where that of
the type itself ends. Displaying a name cuts it at its arity marker, and
what stands behind the cut makes no difference
(`displayName_append_of_isCut`). Nothing else in a name is looked at to
find the arguments. So it is the name of the type alone that decides
whether arguments show (`displays_without_arguments_iff`): they do not if
it has a marker to be cut at, and otherwise even an empty list of them
does (`displayName_append_ne`).
-/

namespace SurfaceReport

namespace Name

/-- Displaying the name cuts its arity off. A marker that begins it cuts
nothing. -/
def IsCut (name : String) : Prop := HasArity name ∧ name.toList.head? ≠ some arityMarker

instance (name : String) : Decidable (IsCut name) := inferInstanceAs (Decidable (_ ∧ _))

variable {name rest : String}

theorem displayName_eq_afterLastDot (name : String) :
    displayName name = .ofList (afterLastDot (withoutArity name).toList) := by
  rw [displayName, simplify, withoutArity, String.toList_ofList]

/-- Whatever stands behind a name that is cut does not show. -/
theorem displayName_append_of_isCut (h : IsCut name) (rest : String) :
    displayName (name ++ rest) = displayName name := by
  rw [displayName_eq_afterLastDot, displayName_eq_afterLastDot,
    withoutArity_append_of_hasArity h.1 h.2]

theorem withoutArity_of_not_isCut (h : ¬IsCut name) : withoutArity name = name := by
  by_cases harity : HasArity name
  · have hhead : name.toList.head? = some arityMarker := by
      by_contra hhead
      exact h ⟨harity, hhead⟩
    obtain ⟨tail, hname⟩ := List.head?_eq_some_iff.mp hhead
    rw [withoutArity, hname, cutArity, if_pos rfl, ← hname, String.ofList_toList]
  · exact withoutArity_of_not_hasArity harity

theorem not_isCut_append (h : ¬IsCut name) (hrest : ¬HasArity rest) : ¬IsCut (name ++ rest) := by
  rintro ⟨harity, hhead⟩
  rw [HasArity, String.toList_append, List.mem_append] at harity
  have hname : HasArity name := harity.resolve_right hrest
  rw [String.toList_append, List.head?_append_of_ne_nil _ (List.ne_nil_of_mem hname)] at hhead
  exact h ⟨hname, hhead⟩

/-- A name is what qualifies it, up to its last dot, and what is behind. -/
theorem exists_qualifier (name : List Char) : ∃ qualifier tail, name = qualifier ++ tail
    ∧ (qualifier = [] ∨ qualifier.getLast? = some '.') ∧ '.' ∉ tail := by
  by_cases hdot : '.' ∈ name
  · obtain ⟨tail, front, hname, htail⟩ := List.eq_append_cons_of_mem (List.mem_reverse.mpr hdot)
    refine ⟨front.reverse ++ ['.'], tail.reverse, ?_, .inr List.getLast?_concat,
      mt List.mem_reverse.mp htail⟩
    rw [← List.reverse_cons, ← List.reverse_append, ← hname, List.reverse_reverse]
  · exact ⟨[], name, rfl, .inl rfl, hdot⟩

theorem afterLastDot_qualifier {qualifier : List Char}
    (h : qualifier = [] ∨ qualifier.getLast? = some '.') : afterLastDot qualifier = qualifier := by
  rw [afterLastDot, takeWhile_reverse_qualifier h]
  rfl

/-- Something without a dot that stands behind a name shows in it. -/
theorem afterLastDot_append_ne {behind : List Char} (name : List Char) (hbehind : behind ≠ [])
    (hdot : '.' ∉ behind) : afterLastDot (name ++ behind) ≠ afterLastDot name := by
  obtain ⟨qualifier, tail, rfl, hqualifier, htail⟩ := exists_qualifier name
  have hwhole : afterLastDot (qualifier ++ tail ++ behind) = tail ++ behind := by
    rw [List.append_assoc]
    refine afterLastDot_append hqualifier (List.append_ne_nil_of_right_ne_nil _ hbehind) ?_
    rw [List.mem_append, not_or]
    exact ⟨htail, hdot⟩
  rw [hwhole]
  intro h
  by_cases hnil : tail = []
  · subst hnil
    rw [List.append_nil, List.nil_append, afterLastDot_qualifier hqualifier] at h
    subst h
    rcases hqualifier with hnone | hlast
    · exact hbehind hnone
    · exact hdot (List.mem_of_getLast? hlast)
  · rw [afterLastDot_append hqualifier hnil htail] at h
    exact hbehind (List.append_right_eq_self.mp h)

theorem displayName_append_ne (h : ¬IsCut name) (hne : rest ≠ "") (harity : ¬HasArity rest)
    (hdot : '.' ∉ rest.toList) : displayName (name ++ rest) ≠ displayName name := by
  rw [displayName_eq_afterLastDot, displayName_eq_afterLastDot, withoutArity_of_not_isCut h,
    withoutArity_of_not_isCut (not_isCut_append h harity), String.toList_append]
  intro hshown
  exact afterLastDot_append_ne name.toList (mt String.toList_eq_nil_iff.mp hne) hdot
    (String.ofList_inj.mp hshown)

end Name

namespace Signature

open Name

/-- **Which generic types show no arguments.** They are those whose own
name is cut at its arity marker. -/
theorem displays_without_arguments_iff (scope : Scope) (base : Signature) :
    (∀ arguments, displayName ((instantiation base arguments).fullName scope)
        = displayName (base.fullName scope))
      ↔ IsCut (base.fullName scope) := by
  constructor
  · intro h
    by_contra hcut
    have hempty : (instantiation base []).fullName scope = base.fullName scope ++ "<>" := by
      rw [fullName, String.append_assoc, String.append_assoc]
      rfl
    have hshown := h []
    rw [hempty] at hshown
    exact displayName_append_ne hcut (by decide) (by decide) (by decide) hshown
  · intro hcut arguments
    rw [fullName, String.append_assoc, String.append_assoc]
    exact displayName_append_of_isCut hcut _

/-- An enumerator whose name does not tell that it is generic, a type
that stands for nothing, and one that is called by its arity alone. -/
theorem arguments_show_without_arity :
    let scope : Scope := ⟨fun token => if token = ⟨1⟩ then some "Enumerator"
      else if token = ⟨2⟩ then some "\x601" else none, [], []⟩
    let list (token : Token) : Signature :=
      instantiation (named .classType token) [primitive .string]
    (list ⟨1⟩).fullName scope = "Enumerator<System.String>"
      ∧ displayName ((list ⟨1⟩).fullName scope) = "String>"
      ∧ displayName ((named .classType ⟨1⟩).fullName scope) = "Enumerator"
      ∧ displayName ((list ⟨2⟩).fullName scope) = "String>"
      ∧ displayName ((named .classType ⟨2⟩).fullName scope) = "\x601"
      ∧ displayName ((list ⟨3⟩).fullName scope) = "String>"
      ∧ displayName ((named .classType ⟨3⟩).fullName scope) = "" := by
  decide +kernel

end Signature

end SurfaceReport
