import Mathlib.Data.List.TakeWhile
import SurfaceReport.Proofs.GenericInstances

/-!
# What a display name is made of

Displaying a name takes away its arity with all that is behind it, and then
what is in front of the last dot. So what is displayed is a part of the
name. It is bare: no dot is in it unless it ends in one
(`isBare_afterLastDot`), and of a bare name nothing is taken away
(`afterLastDot_of_isBare`), which is why displaying what is displayed
changes nothing.

A namespace in front of a name is taken away with its dot wherever
something other than a dot ends what the arity leaves. Where nothing is
left of the name, or it ends in a dot there, the namespace shows. So it is
decided for every name whether its namespace matters (`displays_part`).
-/

namespace SurfaceReport

namespace Name

variable {name qualifier rest : List Char}

/-! ## Bare names -/

/-- No dot is in the name but one that ends it. -/
def IsBare (name : List Char) : Prop := '.' ∈ name → name.getLast? = some '.'

theorem isBare_of_not_mem (h : '.' ∉ name) : IsBare name := fun hdot => absurd hdot h

theorem afterLastDot_of_isBare (h : IsBare name) : afterLastDot name = name := by
  by_cases hdot : '.' ∈ name
  · exact afterLastDot_qualifier (.inr (h hdot))
  · by_cases hnil : name = []
    · exact afterLastDot_qualifier (.inl hnil)
    · exact @afterLastDot_append [] name (.inl rfl) hnil hdot

theorem isBare_afterLastDot (name : List Char) : IsBare (afterLastDot name) := by
  obtain ⟨qualifier, tail, rfl, hqualifier, htail⟩ := exists_qualifier name
  by_cases hnil : tail = []
  · subst hnil
    rw [List.append_nil, afterLastDot_qualifier hqualifier]
    intro hdot
    exact hqualifier.resolve_left (List.ne_nil_of_mem hdot)
  · rw [afterLastDot_append hqualifier hnil htail]
    exact isBare_of_not_mem htail

theorem afterLastDot_suffix (name : List Char) : afterLastDot name <:+ name := by
  rw [afterLastDot]
  split
  case h_1 => exact List.suffix_rfl
  case h_2 htail =>
    rw [← List.reverse_prefix, List.reverse_reverse]
    exact List.takeWhile_prefix _

theorem afterLastDot_ne_nil (h : name ≠ []) : afterLastDot name ≠ [] := by
  rw [afterLastDot]
  split
  case h_1 => exact h
  case h_2 hne => exact hne

theorem cutArity_begins (name : List Char) : cutArity name <+: name := by
  cases name with
  | nil => exact List.prefix_rfl
  | cons c rest =>
      rw [cutArity]
      split
      case isTrue => exact List.prefix_rfl
      case isFalse => exact (List.prefix_cons_inj c).mpr <| List.takeWhile_prefix _

/-- Where a dot shows, nothing was in front of it. -/
theorem afterLastDot_of_mem (h : '.' ∈ afterLastDot name) : afterLastDot name = name := by
  obtain ⟨qualifier, tail, rfl, hqualifier, htail⟩ := exists_qualifier name
  by_cases hnil : tail = []
  · subst hnil
    rw [List.append_nil, afterLastDot_qualifier hqualifier]
  · rw [afterLastDot_append hqualifier hnil htail] at h
    exact absurd h htail

/-! ## Names behind a namespace -/

/-- What stands in front of the first arity marker. -/
def beforeArity (name : List Char) : List Char := name.takeWhile (· ≠ arityMarker)

theorem not_mem_beforeArity (name : List Char) : arityMarker ∉ beforeArity name := by
  intro h
  have hne := List.mem_takeWhile_imp h
  simp at hne

theorem beforeArity_eq_nil_iff :
    beforeArity name = [] ↔ name = [] ∨ name.head? = some arityMarker := by
  cases name with
  | nil => simp [beforeArity]
  | cons c rest => by_cases hc : c = arityMarker <;> simp [beforeArity, hc]

theorem simplify_of_named (h : name.head? ≠ some arityMarker) :
    simplify name = afterLastDot (beforeArity name) := by
  rw [simplify, cutArity_eq h, beforeArity]

/-- Behind something else, also an arity marker that begins a name is a
cut. -/
theorem simplify_behind (hmarker : arityMarker ∉ qualifier) (hne : qualifier ≠ []) :
    simplify (qualifier ++ name) = afterLastDot (qualifier ++ beforeArity name) := by
  have hnamed : (qualifier ++ name).head? ≠ some arityMarker := by
    rw [List.head?_append_of_ne_nil _ hne]
    exact fun hhead => hmarker (List.mem_of_head? hhead)
  rw [simplify_of_named hnamed, beforeArity, takeWhile_append_of_not_mem hmarker, beforeArity]

theorem afterLastDot_behind_iff (hqualifier : qualifier.getLast? = some '.') :
    afterLastDot (qualifier ++ rest) = afterLastDot rest
      ↔ rest ≠ [] ∧ rest.getLast? ≠ some '.' := by
  obtain ⟨inner, tail, rfl, hinner, htail⟩ := exists_qualifier rest
  have houter : (qualifier ++ inner).getLast? = some '.' := by
    rcases hinner with rfl | hlast
    · rwa [List.append_nil]
    · rw [List.getLast?_append, hlast]
      rfl
  rw [← List.append_assoc]
  by_cases hnil : tail = []
  · subst hnil
    rw [List.append_nil, List.append_nil, afterLastDot_qualifier (.inr houter),
      afterLastDot_qualifier hinner]
    refine iff_of_false ?_ (fun h => h.2 (hinner.resolve_left h.1))
    intro h
    rw [List.append_left_eq_self.mp h] at hqualifier
    cases hqualifier
  · rw [afterLastDot_append (.inr houter) hnil htail, afterLastDot_append hinner hnil htail]
    refine iff_of_true rfl ⟨List.append_ne_nil_of_right_ne_nil _ hnil, ?_⟩
    rw [List.getLast?_append_of_ne_nil _ hnil]
    exact fun hlast => htail (List.mem_of_getLast? hlast)

theorem simplify_behind_iff (hmarker : arityMarker ∉ qualifier)
    (hqualifier : qualifier.getLast? = some '.') :
    simplify (qualifier ++ name) = simplify name
      ↔ name ≠ [] ∧ name.head? ≠ some arityMarker ∧ (beforeArity name).getLast? ≠ some '.' := by
  have hne : qualifier ≠ [] := List.ne_nil_of_mem (List.mem_of_getLast? hqualifier)
  rw [simplify_behind hmarker hne]
  by_cases hhead : name.head? = some arityMarker
  · -- The marker cuts nothing off the name alone, but the whole name off the qualifier.
    refine iff_of_false ?_ (fun h => h.2.1 hhead)
    rw [beforeArity_eq_nil_iff.mpr (.inr hhead), List.append_nil,
      afterLastDot_qualifier (.inr hqualifier)]
    obtain ⟨behind, rfl⟩ := List.head?_eq_some_iff.mp hhead
    rw [simplify, cutArity, if_pos rfl]
    intro h
    have hdot : '.' ∈ afterLastDot (arityMarker :: behind) :=
      h ▸ List.mem_of_getLast? hqualifier
    rw [afterLastDot_of_mem hdot] at h
    exact hmarker (h ▸ List.mem_cons_self ..)
  · rw [simplify_of_named hhead, afterLastDot_behind_iff hqualifier, ne_eq,
      beforeArity_eq_nil_iff, or_iff_left hhead]
    simp only [hhead, ne_eq, not_false_eq_true, true_and]

/-! ## Displayed names -/

/-- **What is displayed of a name.** It is a part of it, with nothing to
take away from it but where an arity marker begins the name; and a
namespace makes no difference exactly where what stands in front of the
arity is something that does not end in a dot. -/
theorem displays_part (name : String) :
    (∃ front behind, name = front ++ displayName name ++ behind)
      ∧ (displayName name = "" → name = "")
      ∧ (name.toList.head? ≠ some arityMarker →
        ¬HasArity (displayName name)
          ∧ ('.' ∈ (displayName name).toList → (displayName name).toList.getLast? = some '.')
          ∧ displayName (displayName name) = displayName name)
      ∧ ∀ ns, ¬HasArity ns →
        (displayName (ns ++ "." ++ name) = displayName name
          ↔ name ≠ "" ∧ name.toList.head? ≠ some arityMarker
            ∧ (beforeArity name.toList).getLast? ≠ some '.') := by
  have hshown : (displayName name).toList = simplify name.toList := String.toList_ofList
  refine ⟨?_, ?_, ?_, ?_⟩
  · obtain ⟨front, behind, hparts⟩ : simplify name.toList <:+: name.toList :=
      (afterLastDot_suffix _).isInfix.trans (cutArity_begins _).isInfix
    refine ⟨.ofList front, .ofList behind, String.toList_inj.mp ?_⟩
    rw [String.toList_append, String.toList_append, hshown, String.toList_ofList,
      String.toList_ofList, hparts]
  · intro h
    by_contra hne
    rw [h] at hshown
    exact afterLastDot_ne_nil (cutArity_ne_nil (mt String.toList_eq_nil_iff.mp hne)) hshown.symm
  · intro hnamed
    have hbare : IsBare (displayName name).toList := by
      rw [hshown]
      exact isBare_afterLastDot _
    have harity : ¬HasArity (displayName name) := by
      rw [HasArity, hshown, simplify_of_named hnamed]
      exact fun h => not_mem_beforeArity _ ((afterLastDot_suffix _).subset h)
    refine ⟨harity, hbare, ?_⟩
    rw [displayName_eq_afterLastDot, withoutArity_of_not_hasArity harity,
      afterLastDot_of_isBare hbare, String.ofList_toList]
  · intro ns hns
    have hmarker : arityMarker ∉ (ns ++ ".").toList := by
      rw [String.toList_append, List.mem_append, not_or]
      exact ⟨hns, by decide⟩
    have hqualifier : (ns ++ ".").toList.getLast? = some '.' := by
      rw [String.toList_append]
      exact List.getLast?_concat
    rw [displayName, displayName, String.ofList_inj, String.toList_append,
      simplify_behind_iff hmarker hqualifier, ne_eq, ne_eq, String.toList_eq_nil_iff]

/-- A bag of lists, whose full name has two dots and two markers. -/
theorem bag_of_lists_displays :
    let name := "Bag\x601<Outer.List\x601<System.Byte>>"
    displayName name = "Bag" ∧ displayName (displayName name) = displayName name
      ∧ displayName ("Game.Items" ++ "." ++ name) = displayName name
      ∧ displayName ("Game.Items" ++ "." ++ "\x601") ≠ displayName "\x601" := by
  intro name
  obtain ⟨-, -, hbare, hnamespace⟩ := displays_part name
  refine ⟨by decide +kernel, (hbare (by decide)).2.2, ?_, ?_⟩
  · exact (hnamespace "Game.Items" (by decide)).mpr ⟨by decide, by decide, by decide⟩
  · obtain ⟨-, -, -, hmarker⟩ := displays_part "\x601"
    exact fun h => ((hmarker "Game.Items" (by decide)).mp h).2.1 rfl

end Name

end SurfaceReport
