import Mathlib.Data.List.Nodup
import SurfaceReport.Image.Assembly

/-!
# Where parameters get their names from

A parameter is named by the first row with its number, so what other
numbers there are does not matter to it, and rows that are no parameter's
do not matter at all (`parameterNames_rows`).

Rows of one number may differ in their names, and then it matters which of
them comes first. Where they agree, any of them tells the name
(`parameterName_of_mem`). So the order of the rows is of no account exactly
where they agree (`parameterNames_perm_iff`), as they do if each number is
in one row at most (`parameterNames_follow_rows`).
-/

namespace SurfaceReport

/-- What metadata says of a parameter besides its type: its number, and its
name if it has one. -/
abbrev NameRow := UInt32 × Option String

variable {rows others front back : List NameRow} {row : NameRow} {number count : Nat}

/-! ## The first row with a number -/

def firstRow? (rows : List NameRow) (number : Nat) : Option NameRow :=
  rows.find? fun row => row.1.toNat == number

theorem parameterName_eq (rows : List NameRow) (number : Nat) :
    parameterName rows number = ((firstRow? rows number).bind Prod.snd).getD "" := by
  rw [parameterName, ← firstRow?]
  obtain _ | ⟨_, _ | name⟩ := firstRow? rows number <;> rfl

theorem firstRow?_eq_none_iff :
    firstRow? rows number = none ↔ ∀ row ∈ rows, row.1.toNat ≠ number := by
  simp [firstRow?]

theorem firstRow?_append (hfront : ∀ row ∈ front, row.1.toNat ≠ number)
    (hrow : row.1.toNat = number) : firstRow? (front ++ row :: back) number = some row := by
  have hnone : front.find? (fun row => row.1.toNat == number) = none :=
    firstRow?_eq_none_iff.mpr hfront
  rw [firstRow?, List.find?_append, hnone, Option.none_or]
  exact List.find?_cons_of_pos (beq_iff_eq.mpr hrow)

theorem mem_of_firstRow? (h : firstRow? rows number = some row) :
    row ∈ rows ∧ row.1.toNat = number := by
  have hnumber := List.find?_some h
  exact ⟨List.mem_of_find?_eq_some h, beq_iff_eq.mp hnumber⟩

/-! ## The rows of parameters -/

/-- The number is that of one of so many parameters. -/
def IsParameter (count : Nat) (number : UInt32) : Prop :=
  1 ≤ number.toNat ∧ number.toNat ≤ count

instance (count : Nat) (number : UInt32) : Decidable (IsParameter count number) :=
  inferInstanceAs (Decidable (_ ∧ _))

def parameterRows (count : Nat) (rows : List NameRow) : List NameRow :=
  rows.filter fun row => decide (IsParameter count row.1)

/-- Rows of one parameter tell the same name. -/
def NamesAgree (count : Nat) (rows : List NameRow) : Prop :=
  ∀ row ∈ rows, ∀ other ∈ rows, IsParameter count row.1 → row.1 = other.1 →
    row.2.getD "" = other.2.getD ""

theorem firstRow?_parameterRows (hpos : 1 ≤ number) (hle : number ≤ count) :
    firstRow? (parameterRows count rows) number = firstRow? rows number := by
  rw [firstRow?, firstRow?, parameterRows, List.find?_filter]
  congr 1
  funext row
  by_cases hrow : row.1.toNat = number
  · have hof : IsParameter count row.1 := ⟨hrow ▸ hpos, hrow ▸ hle⟩
    simp [hof, hrow]
  · simp [hrow]

theorem parameterName_of_mem (hagree : NamesAgree count rows) (hof : IsParameter count row.1)
    (hmem : row ∈ rows) : parameterName rows row.1.toNat = row.2.getD "" := by
  rw [parameterName_eq]
  cases hfirst : firstRow? rows row.1.toNat with
  | none => exact absurd rfl (firstRow?_eq_none_iff.mp hfirst row hmem)
  | some first =>
      obtain ⟨hfound, hnumber⟩ := mem_of_firstRow? hfirst
      have hsame : first.1 = row.1 := UInt32.toNat_inj.mp hnumber
      exact hagree first hfound row hmem (hsame ▸ hof) hsame

theorem namesAgree_of_nodup (h : ((parameterRows count rows).map Prod.fst).Nodup) :
    NamesAgree count rows := by
  intro row hrow other hother hof hsame
  have hmem : row ∈ parameterRows count rows := List.mem_filter.mpr ⟨hrow, decide_eq_true hof⟩
  have hmem' : other ∈ parameterRows count rows :=
    List.mem_filter.mpr ⟨hother, decide_eq_true (hsame ▸ hof)⟩
  rw [List.inj_on_of_nodup_map h hmem hmem' hsame]

/-! ## The names of all parameters -/

theorem length_parameterNames (rows : List NameRow) (count : Nat) :
    (parameterNames rows count).length = count := by
  rw [parameterNames, List.length_map, List.length_range]

theorem getElem?_parameterNames {i : Nat} (hi : i < count) :
    (parameterNames rows count)[i]? = some (parameterName rows (i + 1)) := by
  rw [parameterNames, List.getElem?_map, List.getElem?_range hi]
  rfl

theorem parameterNames_congr (h : ∀ number, 1 ≤ number → number ≤ count →
      parameterName rows number = parameterName others number) :
    parameterNames rows count = parameterNames others count :=
  List.map_congr_left fun i hi => h (i + 1) (Nat.le_add_left 1 i) (List.mem_range.mp hi)

/-- Each parameter has a name, if only an empty one, so none is left out. -/
theorem zip_parameterNames {α : Type} {parameters : List α} (h : parameters.length = count) :
    ((parameterNames rows count).zip parameters).map Prod.snd = parameters :=
  List.map_snd_zip (Nat.le_of_eq (h.trans (length_parameterNames rows count).symm))

theorem parameterNames_rows (rows : List NameRow) (count : Nat) :
    parameterNames (parameterRows count rows) count = parameterNames rows count := by
  refine parameterNames_congr fun number hpos hle => ?_
  rw [parameterName_eq, parameterName_eq, firstRow?_parameterRows hpos hle]

theorem parameterNames_perm_iff :
    (∀ others, others.Perm rows → parameterNames others count = parameterNames rows count)
      ↔ NamesAgree count rows := by
  constructor
  · -- Any row can be put first, and names its parameter there.
    intro hsame
    have hnames {row : NameRow} (hrow : row ∈ rows) (hof : IsParameter count row.1) :
        (parameterNames rows count)[row.1.toNat - 1]? = some (row.2.getD "") := by
      obtain ⟨hpos, hle⟩ := hof
      obtain ⟨front, back, hrows⟩ := List.append_of_mem hrow
      have hfirst : firstRow? (row :: (front ++ back)) row.1.toNat = some row :=
        @firstRow?_append [] _ _ _ (List.forall_mem_nil _) rfl
      rw [← hsame (row :: (front ++ back)) (hrows ▸ List.perm_middle.symm),
        getElem?_parameterNames (by omega), Nat.sub_add_cancel hpos, parameterName_eq, hfirst]
      rfl
    intro row hrow other hother hof heq
    have hname := hnames hrow hof
    rw [heq, hnames hother (heq ▸ hof)] at hname
    exact (Option.some.inj hname).symm
  · intro hagree others hperm
    have hothers : NamesAgree count others := fun row hrow other hother =>
      hagree row (hperm.mem_iff.mp hrow) other (hperm.mem_iff.mp hother)
    refine parameterNames_congr fun number hpos hle => ?_
    cases hfirst : firstRow? rows number with
    | none =>
        have hnone : firstRow? others number = none := firstRow?_eq_none_iff.mpr fun row hrow =>
          firstRow?_eq_none_iff.mp hfirst row (hperm.mem_iff.mp hrow)
        rw [parameterName_eq, parameterName_eq, hfirst, hnone]
    | some row =>
        obtain ⟨hrow, rfl⟩ := mem_of_firstRow? hfirst
        rw [parameterName_of_mem hothers ⟨hpos, hle⟩ (hperm.mem_iff.mpr hrow),
          parameterName_of_mem hagree ⟨hpos, hle⟩ hrow]

/-- **Whose names parameters get.** -/
theorem parameterNames_follow_rows (rows : List NameRow) (count : Nat) :
    (parameterNames rows count).length = count
      ∧ (∀ {α : Type} (parameters : List α), parameters.length = count →
        ((parameterNames rows count).zip parameters).map Prod.snd = parameters)
      ∧ (∀ i < count, (∀ row ∈ rows, row.1.toNat ≠ i + 1) →
        (parameterNames rows count)[i]? = some "")
      ∧ (∀ i < count, ∀ front row back, rows = front ++ row :: back →
        (∀ earlier ∈ front, earlier.1.toNat ≠ i + 1) → row.1.toNat = i + 1 →
        (parameterNames rows count)[i]? = some (row.2.getD ""))
      ∧ (∀ others, parameterRows count others = parameterRows count rows →
        parameterNames others count = parameterNames rows count)
      ∧ ((∀ others, others.Perm rows → parameterNames others count = parameterNames rows count)
        ↔ NamesAgree count rows)
      ∧ (((parameterRows count rows).map Prod.fst).Nodup →
        ∀ others, others.Perm rows → parameterNames others count = parameterNames rows count) := by
  refine ⟨length_parameterNames rows count, fun parameters => zip_parameterNames, ?_, ?_, ?_,
    parameterNames_perm_iff, fun hdistinct =>
      parameterNames_perm_iff.mpr (namesAgree_of_nodup hdistinct)⟩
  · intro i hi hnone
    rw [getElem?_parameterNames hi, parameterName_eq, firstRow?_eq_none_iff.mpr hnone]
    rfl
  · rintro i hi front row back rfl hfront hrow
    rw [getElem?_parameterNames hi, parameterName_eq, firstRow?_append hfront hrow]
    rfl
  · intro others hsame
    rw [← parameterNames_rows others, hsame, parameterNames_rows]

/-- Rows without order, of which some are no parameter's, and one has no
name where a later one would have one. -/
theorem names_of_scattered_rows :
    let rows : List NameRow :=
      [(3, some "z"), (0, some "result"), (1, none), (9, some "w"), (2, some "y")]
    let more := rows ++ [(1, some "x")]
    parameterNames more 3 = ["", "y", "z"]
      ∧ parameterNames rows.reverse 3 = parameterNames rows 3
      ∧ ¬∀ others, others.Perm more → parameterNames others 3 = parameterNames more 3 := by
  intro rows more
  obtain ⟨-, -, -, -, -, -, hdistinct⟩ := parameterNames_follow_rows rows 3
  obtain ⟨-, -, -, -, -, hagree, -⟩ := parameterNames_follow_rows more 3
  refine ⟨by decide +kernel, ?_, fun hsame => ?_⟩
  · exact hdistinct (by decide +kernel) rows.reverse (List.reverse_perm rows)
  · have hnames := hagree.mp hsame (1, none) (by decide) (1, some "x") (by decide) (by decide) rfl
    exact absurd hnames (by decide)

/-! ## The parameters of a method -/

/-- A method has all the parameters of its signature, whatever rows there
are. -/
theorem Image.Declarations.typeNames_methodOf (accessors : PropertyAccessors) (scope : Scope)
    (number : Nat) (declared : Image.MethodRow) :
    (methodOf accessors scope number declared).parameters.map Parameter.typeName
      = declared.signature.parameters.map fun passed =>
        passed.type.passedName scope passed.byReference := by
  have hall : ((parameterNames (declared.parameters.map fun row => (row.number, some row.name))
      declared.signature.parameters.length).zip declared.signature.parameters).map Prod.snd
      = declared.signature.parameters := zip_parameterNames rfl
  have htypes := congrArg (List.map fun passed : Image.Passed =>
    passed.type.passedName scope passed.byReference) hall
  rw [List.map_map] at htypes
  rw [methodOf, List.map_map]
  exact htypes

end SurfaceReport
