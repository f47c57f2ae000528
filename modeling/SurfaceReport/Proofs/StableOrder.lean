import SurfaceReport.Proofs.ByteOrder
import SurfaceReport.Report.Build

/-!
# Sorting by name

Everything a report says about order follows from one equation,
`sortedBy_cons`: sorting puts the first element between the smaller
elements and the rest, which are sorted already. In particular the first
element stands before the elements of its own name, so that equal names
stay in the order of the declaration.

The equation makes sorting a recursion over the list. That sorting and
filtering can change places (`filter_sortedBy`) is an induction along
it, and stability (`filter_name_sortedBy`) is the special case of the
filter that keeps a single name. So a sorted list can be cut at any name
(`sortedBy_at`).

`Arranges` is the specification: which list it is that declarations
reach a report in, said without a sorting algorithm.
-/

namespace SurfaceReport

namespace Report

variable {α : Type}

/-! ## The sorted list -/

theorem sortedBy_perm (name : α → String) (xs : List α) : (sortedBy name xs).Perm xs :=
  List.mergeSort_perm xs _

@[simp] theorem sortedBy_nil (name : α → String) : sortedBy name [] = [] := by
  simp [sortedBy]

@[simp] theorem mem_sortedBy {name : α → String} {x : α} {xs : List α} :
    x ∈ sortedBy name xs ↔ x ∈ xs :=
  (sortedBy_perm name xs).mem_iff

theorem name_le_trans (name : α → String) (a b c : α) (hab : decide (name a ≤ name b) = true)
    (hbc : decide (name b ≤ name c) = true) : decide (name a ≤ name c) = true := by
  rw [decide_eq_true_eq] at *
  exact String.le_trans hab hbc

theorem name_le_total (name : α → String) (a b : α) :
    (decide (name a ≤ name b) || decide (name b ≤ name a)) = true := by
  rw [Bool.or_eq_true, decide_eq_true_eq, decide_eq_true_eq]
  exact String.le_total _ _

theorem sortedBy_ascending (name : α → String) (xs : List α) :
    (sortedBy name xs).Pairwise fun a b => name a ≤ name b := by
  have h := List.pairwise_mergeSort (name_le_trans name) (name_le_total name) xs
  exact h.imp fun hab => of_decide_eq_true hab

theorem sortedBy_eq_self {name : α → String} {xs : List α}
    (h : xs.Pairwise fun a b => name a ≤ name b) :
    sortedBy name xs = xs :=
  List.mergeSort_of_pairwise (h.imp fun hab => decide_eq_true hab)

/-! ## One element more -/

theorem exists_sortedBy_cons (name : α → String) (a : α) (xs : List α) :
    ∃ front back, sortedBy name (a :: xs) = front ++ a :: back
      ∧ sortedBy name xs = front ++ back
      ∧ (∀ b ∈ front, ¬name a ≤ name b) ∧ ∀ b ∈ back, name a ≤ name b := by
  obtain ⟨front, back, hcons, hxs, hfront⟩ :=
    List.mergeSort_cons (name_le_trans name) (name_le_total name) a xs
  have hsorted := sortedBy_ascending name (a :: xs)
  rw [sortedBy, hcons, List.pairwise_append, List.pairwise_cons] at hsorted
  refine ⟨front, back, hcons, hxs, ?_, hsorted.2.1.1⟩
  intro b hb
  simpa only [Bool.not_eq_true', decide_eq_false_iff_not] using hfront b hb

/-- The first element comes behind the smaller names and before all others. -/
theorem sortedBy_cons (name : α → String) (a : α) (xs : List α) :
    sortedBy name (a :: xs)
      = (sortedBy name xs).filter (fun b => !decide (name a ≤ name b))
        ++ a :: (sortedBy name xs).filter (fun b => decide (name a ≤ name b)) := by
  obtain ⟨front, back, hcons, hxs, hfront, hback⟩ := exists_sortedBy_cons name a xs
  have hfront₁ : front.filter (fun b => !decide (name a ≤ name b)) = front :=
    List.filter_eq_self.mpr fun b hb => by rw [decide_eq_false (hfront b hb)]; rfl
  have hfront₂ : front.filter (fun b => decide (name a ≤ name b)) = [] :=
    List.filter_eq_nil_iff.mpr fun b hb h => hfront b hb (of_decide_eq_true h)
  have hback₁ : back.filter (fun b => !decide (name a ≤ name b)) = [] :=
    List.filter_eq_nil_iff.mpr fun b hb => by rw [decide_eq_true (hback b hb)]; decide
  have hback₂ : back.filter (fun b => decide (name a ≤ name b)) = back :=
    List.filter_eq_self.mpr fun b hb => decide_eq_true (hback b hb)
  rw [hcons, hxs, List.filter_append, List.filter_append, hfront₁, hfront₂, hback₁, hback₂,
    List.append_nil, List.nil_append]

/-- Elements can be dropped before or after sorting. -/
theorem filter_sortedBy (name : α → String) (p : α → Bool) (xs : List α) :
    (sortedBy name xs).filter p = sortedBy name (xs.filter p) := by
  induction xs with
  | nil => simp
  | cons a xs ih =>
      cases hp : p a with
      | true =>
          rw [sortedBy_cons, List.filter_append, List.filter_cons_of_pos hp,
            List.filter_cons_of_pos hp, sortedBy_cons, ← ih]
          simp only [List.filter_filter, Bool.and_comm]
      | false =>
          obtain ⟨front, back, hcons, hxs, -, -⟩ := exists_sortedBy_cons name a xs
          have ha : ¬p a = true := by simp [hp]
          rw [hcons, List.filter_append, List.filter_cons_of_neg ha,
            List.filter_cons_of_neg ha, ← List.filter_append, ← hxs, ih]

/-- Elements of one name stay in the order in which they were declared. -/
theorem filter_name_sortedBy (name : α → String) (key : String) (xs : List α) :
    (sortedBy name xs).filter (fun a => name a == key)
      = xs.filter (fun a => name a == key) := by
  rw [filter_sortedBy]
  refine sortedBy_eq_self (List.Pairwise.imp_of_mem (R := fun _ _ => True) ?_ ?_)
  · intro a b ha hb _
    have hname : name a = name b :=
      (eq_of_beq (List.mem_filter.mp ha).2).trans (eq_of_beq (List.mem_filter.mp hb).2).symm
    exact hname ▸ String.le_refl (name a)
  · exact List.pairwise_of_forall fun _ _ => trivial

/-! ## What sorting depends on -/

theorem mem_of_filter_name {name : α → String} {xs ys : List α} {x : α}
    (h : ∀ key, xs.filter (fun a => name a == key) = ys.filter (fun a => name a == key))
    (hx : x ∈ xs) : x ∈ ys := by
  have hkept : x ∈ xs.filter fun a => name a == name x := by simp [hx]
  rw [h] at hkept
  exact (List.mem_filter.mp hkept).1

theorem head_le_of_mem {name : α → String} {x y : α} {xs : List α}
    (h : (x :: xs).Pairwise fun a b => name a ≤ name b) (hy : y ∈ x :: xs) :
    name x ≤ name y := by
  rcases List.mem_cons.mp hy with rfl | hrest
  · exact String.le_refl _
  · exact List.rel_of_pairwise_cons h hrest

/-- In ascending order the elements of each name, taken in turn, are all
there is to a list. -/
theorem eq_of_ascending_of_filter_name {name : α → String} : ∀ {xs ys : List α},
    xs.Pairwise (fun a b => name a ≤ name b) → ys.Pairwise (fun a b => name a ≤ name b) →
    (∀ key, xs.filter (fun a => name a == key) = ys.filter (fun a => name a == key)) → xs = ys
  | [], [], _, _, _ => rfl
  | [], _ :: _, _, _, h =>
      (List.not_mem_nil (mem_of_filter_name (fun key => (h key).symm) (List.mem_cons_self ..))).elim
  | _ :: _, [], _, _, h =>
      (List.not_mem_nil (mem_of_filter_name h (List.mem_cons_self ..))).elim
  | x :: xs, y :: ys, hxs, hys, h => by
      -- Each head has the least name of its list, and stands in the other list too.
      have hx : x ∈ y :: ys := mem_of_filter_name h (List.mem_cons_self ..)
      have hy : y ∈ x :: xs := mem_of_filter_name (fun key => (h key).symm) (List.mem_cons_self ..)
      have hname : name x = name y :=
        String.le_antisymm (head_le_of_mem hxs hy) (head_le_of_mem hys hx)
      have hheads := h (name x)
      simp only [List.filter_cons, hname, beq_self_eq_true, if_true] at hheads
      obtain ⟨rfl, hrest⟩ := List.cons.inj hheads
      rw [eq_of_ascending_of_filter_name hxs.of_cons hys.of_cons fun key => ?_]
      by_cases hkey : name x = key
      · rw [← hkey, hrest]
      · have hne : ¬(name x == key) = true := by simpa using hkey
        have hdrop := h key
        simp only [List.filter_cons, if_neg hne] at hdrop
        exact hdrop

/-- Sorting forgets the order of a list except within each name. -/
theorem sortedBy_eq_iff {name : α → String} {xs ys : List α} :
    sortedBy name xs = sortedBy name ys
      ↔ ∀ key, xs.filter (fun a => name a == key) = ys.filter (fun a => name a == key) := by
  constructor
  · intro h key
    rw [← filter_name_sortedBy, h, filter_name_sortedBy]
  · intro h
    refine eq_of_ascending_of_filter_name (sortedBy_ascending name xs)
      (sortedBy_ascending name ys) fun key => ?_
    rw [filter_name_sortedBy, filter_name_sortedBy, h key]

theorem map_sortedBy {β : Type} {name : α → String} {image : β → String} {f : α → β}
    (h : ∀ a, image (f a) = name a) (xs : List α) :
    (sortedBy name xs).map f = sortedBy image (xs.map f) :=
  List.map_mergeSort fun a _ b _ => by rw [h, h]

/-! ## Where a sorted list is cut -/

/-- What goes up to a point holds of a beginning of an ascending list. -/
theorem filter_append_of_ascending {name : α → String} {p : α → Bool} {xs : List α}
    (h : xs.Pairwise fun a b => name a ≤ name b)
    (hp : ∀ a b, name a ≤ name b → p b = true → p a = true) :
    xs.filter p ++ xs.filter (fun b => !p b) = xs := by
  induction xs with
  | nil => rfl
  | cons x xs ih =>
      cases hx : p x with
      | true =>
          rw [List.filter_cons_of_pos hx, List.filter_cons_of_neg (by simp [hx]), List.cons_append,
            ih h.of_cons]
      | false =>
          have hnone : ∀ b ∈ x :: xs, ¬p b = true := fun b hb hpb =>
            absurd (hp x b (head_le_of_mem h hb) hpb) (by simp [hx])
          rw [List.filter_eq_nil_iff.mpr hnone, List.nil_append]
          exact List.filter_eq_self.mpr fun b hb => by simpa using hnone b hb

/-- A sorted list is what is smaller than a name, what has it, and what is
greater. -/
theorem sortedBy_at (name : α → String) (key : String) (xs : List α) :
    sortedBy name xs
      = sortedBy name (xs.filter fun b => decide (name b < key))
        ++ (xs.filter (fun b => name b == key)
          ++ sortedBy name (xs.filter fun b => decide (key < name b))) := by
  have hascending := sortedBy_ascending name xs
  rw [← filter_sortedBy, ← filter_sortedBy, ← filter_name_sortedBy]
  generalize sortedBy name xs = ys at hascending ⊢
  have hsmaller := filter_append_of_ascending (p := fun b => decide (name b < key)) hascending
    fun a b hab hb => decide_eq_true (Std.lt_of_le_of_lt hab (of_decide_eq_true hb))
  have hthose := filter_append_of_ascending (p := fun b => decide (name b ≤ key))
    (hascending.filter fun b => !decide (name b < key))
    fun a b hab hb => decide_eq_true (String.le_trans hab (of_decide_eq_true hb))
  have hkey (b : α) : (decide (name b ≤ key) && !decide (name b < key)) = (name b == key) := by
    rw [Bool.eq_iff_iff]
    simp only [Bool.and_eq_true, Bool.not_eq_true', decide_eq_true_eq,
      decide_eq_false_iff_not, String.not_lt, beq_iff_eq]
    exact ⟨fun h => String.le_antisymm h.1 h.2, fun h => h ▸ ⟨String.le_refl _, String.le_refl _⟩⟩
  have hgreater (b : α) :
      (!decide (name b ≤ key) && !decide (name b < key)) = decide (key < name b) := by
    rw [Bool.eq_iff_iff]
    simp only [Bool.and_eq_true, Bool.not_eq_true', decide_eq_true_eq,
      decide_eq_false_iff_not, String.not_lt, String.not_le]
    exact ⟨And.left, fun h => ⟨h, Std.le_of_lt h⟩⟩
  rw [← hthose, List.filter_filter, List.filter_filter] at hsmaller
  simp only [hkey, hgreater] at hsmaller
  exact hsmaller.symm

/-! ## What it is to be in order -/

/-- `ys` is what reaches a report of the declarations `xs`: exactly those
that are kept, as often as they are declared, by ascending bytes of their
names, and those of one name as they were declared. -/
structure Arranges (name : α → String) (keeps : α → Bool) (xs ys : List α) : Prop where
  kept : ys.Perm (xs.filter keeps)
  ascending : ys.Pairwise fun a b => ¬Utf8.Before (name b) (name a)
  stable : ∀ key, ys.filter (fun a => name a == key)
    = (xs.filter keeps).filter (fun a => name a == key)

theorem arranges_sortedBy (name : α → String) (keeps : α → Bool) (xs : List α) :
    Arranges name keeps xs (sortedBy name (xs.filter keeps)) where
  kept := sortedBy_perm name _
  ascending := (sortedBy_ascending name _).imp Utf8.not_before_iff_le.mpr
  stable key := filter_name_sortedBy name key _

end Report

end SurfaceReport
