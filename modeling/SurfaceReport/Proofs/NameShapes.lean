import Mathlib.Data.List.Basic
import Mathlib.Data.List.Induction
import SurfaceReport.Signature
import SurfaceReport.Proofs.XmlUniqueness

/-!
# What a full type name tells

A full name begins with a leaf and goes on with a suffix for each thing
that is made of it, from the inside out. Read from its end it is in
prefix form (`Shape.backward`): the last character tells what was made
last, and a suffix is over before it is known what it was put behind. So
names within a name need no marks around them to be read in one way
(`Shape.Sound.readsAlone`); it is enough that none of them holds a
character that suffixes are made of.

A name does not tell a class from a value type, nor an array of one
dimension from a vector, nor that a local is pinned. What it does tell
is the shape of the type, and all of it (`fullName_eq_iff_shape_eq`).
-/

namespace SurfaceReport

open Xml (Stops stops_cons eq_of_stops)

namespace Signature

/-! ## Shapes -/

/-- What can be told of a type by its name. -/
inductive Shape where
  /-- A type that has a name of its own. -/
  | leaf (name : String)
  | vector (element : Shape)
  | array (element : Shape) (rank : UInt32)
  | pointer (target : Shape)
  | byRef (target : Shape)
  | instantiation (base : Shape) (arguments : List Shape)

section

variable (scope : Scope)

mutual

/-- The shape of a type. Pinning is no part of it, an array of one
dimension at most is a vector, and a leaf is what it is called. -/
def shape : Signature → Shape
  | vector element => .vector (shape element)
  | array element rank =>
    if rank.toNat ≤ 1 then .vector (shape element) else .array (shape element) rank
  | pointer target => .pointer (shape target)
  | byRef target => .byRef (shape target)
  | pinned target => shape target
  | instantiation base arguments => .instantiation (shape base) (shapes arguments)
  | primitive p => .leaf (fullName scope (primitive p))
  | named kind token => .leaf (fullName scope (named kind token))
  | typeParameter index => .leaf (fullName scope (typeParameter index))
  | methodParameter index => .leaf (fullName scope (methodParameter index))
  | functionPointer convention count result =>
    .leaf (fullName scope (functionPointer convention count result))
  | marker m => .leaf (fullName scope (marker m))

def shapes : List Signature → List Shape
  | [] => []
  | signature :: rest => shape signature :: shapes rest

end

mutual

/-- All leaves have names: none of them is a marker or a token that
stands for nothing. -/
def isNamed : Signature → Bool
  | named _ token => (scope.resolve token).isSome
  | marker _ => false
  | vector element => isNamed element
  | array element _ => isNamed element
  | pointer target => isNamed target
  | byRef target => isNamed target
  | pinned target => isNamed target
  | instantiation base arguments => isNamed base && areNamed arguments
  | primitive _ | typeParameter _ | methodParameter _ | functionPointer _ _ _ => true

def areNamed : List Signature → Bool
  | [] => true
  | signature :: rest => isNamed signature && areNamed rest

end

end

/-! ## Names from their ends -/

namespace Shape

mutual

/-- The full name of a type of this shape, from its end to its
beginning. -/
def backward : Shape → List Char
  | leaf name => name.toList.reverse
  | vector element => ']' :: '[' :: backward element
  | array element rank =>
    ']' :: (List.replicate (rank.toNat - 1) ',' ++ '[' :: backward element)
  | pointer target => '*' :: backward target
  | byRef target => '&' :: backward target
  | instantiation base arguments => '>' :: (backwards arguments ++ '<' :: backward base)

/-- The arguments of a type between its brackets, from the last one
on. -/
def backwards : List Shape → List Char
  | [] => []
  | [a] => backward a
  | a :: b :: rest => backwards (b :: rest) ++ ',' :: backward a

end

theorem backwards_concat : ∀ {front : List Shape} (last : Shape), front ≠ [] →
    backwards (front ++ [last]) = backward last ++ ',' :: backwards front
  | [], _, hfront => absurd rfl hfront
  | [_], _, _ => rfl
  | a :: b :: front, last, _ => by
      show backwards ((b :: front) ++ [last]) ++ ',' :: backward a = _
      rw [backwards_concat last (List.cons_ne_nil b front), List.append_assoc]
      rfl

end Shape

mutual

/-- The full name of a type is that of its shape. -/
theorem reverse_fullName (scope : Scope) : ∀ signature : Signature,
    (signature.fullName scope).toList.reverse = (signature.shape scope).backward
  | vector element => by
      rw [fullName, String.toList_append, List.reverse_append, reverse_fullName scope element]
      rfl
  | array element rank => by
      have hsuffix : (rankSuffix rank).toList.reverse
          = ']' :: (List.replicate (rank.toNat - 1) ',' ++ ['[']) := by
        simp [rankSuffix]
      rw [fullName, String.toList_append, List.reverse_append, reverse_fullName scope element,
        hsuffix, shape]
      split
      case isTrue hrank =>
        rw [Nat.sub_eq_zero_of_le hrank]
        rfl
      case isFalse => simp [Shape.backward]
  | pointer target => by
      rw [fullName, String.toList_append, List.reverse_append, reverse_fullName scope target]
      rfl
  | byRef target => by
      rw [fullName, String.toList_append, List.reverse_append, reverse_fullName scope target]
      rfl
  | pinned target => by
      rw [fullName, reverse_fullName scope target, shape]
  | instantiation base arguments => by
      simp only [fullName, String.toList_append, List.reverse_append,
        reverse_fullName scope base, reverse_commaSeparated scope arguments, shape,
        Shape.backward]
      rfl
  | primitive _ | named _ _ | typeParameter _ | methodParameter _ | functionPointer _ _ _
  | marker _ => rfl

theorem reverse_commaSeparated (scope : Scope) : ∀ signatures : List Signature,
    (commaSeparated (fullNames scope signatures)).toList.reverse
      = Shape.backwards (shapes scope signatures)
  | [] => rfl
  | [signature] => reverse_fullName scope signature
  | first :: second :: rest => by
      show (fullName scope first ++ ","
        ++ commaSeparated (fullNames scope (second :: rest))).toList.reverse = _
      simp only [String.toList_append, List.reverse_append, reverse_fullName scope first,
        reverse_commaSeparated scope (second :: rest)]
      rfl

end

/-! ## Reading -/

/-- A character that suffixes are made of. -/
def isMark (c : Char) : Bool := ['<', '>', '[', ']', ',', '*', '&'].contains c

def IsPlain (name : String) : Prop := ∀ c ∈ name.toList, isMark c = false

instance (name : String) : Decidable (IsPlain name) := List.decidableBAll _ name.toList

namespace Shape

/-- The leaves have plain names, and an array is not what a vector is
written as. -/
inductive Sound : Shape → Prop where
  | leaf {name : String} (nonempty : name ≠ "") (plain : IsPlain name) : Sound (.leaf name)
  | vector {element : Shape} (element_sound : Sound element) : Sound (.vector element)
  | array {element : Shape} {rank : UInt32} (two_le : 2 ≤ rank.toNat)
      (element_sound : Sound element) : Sound (.array element rank)
  | pointer {target : Shape} (target_sound : Sound target) : Sound (.pointer target)
  | byRef {target : Shape} (target_sound : Sound target) : Sound (.byRef target)
  | instantiation {base : Shape} {arguments : List Shape} (base_sound : Sound base)
      (arguments_sound : ∀ a ∈ arguments, Sound a) : Sound (.instantiation base arguments)

/-- No other shape can be read where this one can, and none that goes on
further. -/
def ReadsAlone (a : Shape) : Prop :=
  ∀ {b : Shape}, b.Sound → ∀ {r s : List Char}, Stops (!isMark ·) r → Stops (!isMark ·) s →
    a.backward ++ r = b.backward ++ s → a = b ∧ r = s

variable {a b : Shape} {name : String} {c : Char} {r s : List Char}

theorem leaf_ne_mark (hnonempty : name ≠ "") (hplain : IsPlain name) (hc : isMark c = true) :
    (leaf name).backward ++ r ≠ c :: s := by
  intro h
  obtain ⟨d, rest, hd⟩ := List.exists_cons_of_ne_nil
    (mt List.reverse_eq_nil_iff.mp (mt String.toList_eq_nil_iff.mp hnonempty))
  rw [backward, hd, List.cons_append] at h
  obtain rfl : d = c := (List.cons.inj h).1
  have hmem : d ∈ name.toList := List.mem_reverse.mp (hd ▸ List.mem_cons_self ..)
  rw [hplain d hmem] at hc
  cases hc

/-- As many commas stand between brackets as there are. -/
theorem brackets_inj {n m : Nat}
    (h : List.replicate n ',' ++ '[' :: r = List.replicate m ',' ++ '[' :: s) :
    n = m ∧ r = s := by
  have hcomma (k : Nat) : ∀ c ∈ List.replicate k ',', (c == ',') = true :=
    fun c hc => beq_iff_eq.mpr (List.eq_of_mem_replicate hc)
  obtain ⟨hcommas, hrest⟩ := eq_of_stops (p := (· == ',')) (hcomma n) (hcomma m)
    (stops_cons.mpr rfl) (stops_cons.mpr rfl) h
  have hlength := congrArg List.length hcommas
  rw [List.length_replicate, List.length_replicate] at hlength
  exact ⟨hlength, (List.cons.inj hrest).2⟩

/-- A full name does not end in what stands before an argument. -/
theorem Sound.ne_opening (ha : a.Sound) (h : a.backward ++ r = c :: s) : c ≠ '<' ∧ c ≠ ',' := by
  cases ha with
  | leaf hnonempty hplain =>
      constructor <;> rintro rfl <;> exact leaf_ne_mark hnonempty hplain rfl h
  | vector | array | pointer | byRef | instantiation =>
      obtain rfl := (List.cons.inj h).1
      decide

/-- What stands before the last argument, back to what the brackets are
behind. -/
def inFront (front : List Shape) (r : List Char) : List Char :=
  match front with
  | [] => '<' :: r
  | a :: rest => ',' :: (backwards (a :: rest) ++ '<' :: r)

theorem backwards_append (front : List Shape) (last : Shape) (r : List Char) :
    backwards (front ++ [last]) ++ '<' :: r = last.backward ++ inFront front r := by
  cases front with
  | nil => rfl
  | cons a rest =>
      rw [backwards_concat last (List.cons_ne_nil a rest), List.append_assoc]
      rfl

theorem stops_inFront (front : List Shape) (r : List Char) :
    Stops (!isMark ·) (inFront front r) := by
  cases front <;> exact stops_cons.mpr rfl

/-- Where single arguments are read in one way, so are any number of
them. -/
theorem backwards_unique {first second : List Shape} (hfirst : ∀ a ∈ first, a.Sound)
    (halone : ∀ a ∈ first, a.ReadsAlone) (hsecond : ∀ b ∈ second, b.Sound)
    (h : backwards first ++ '<' :: r = backwards second ++ '<' :: s) :
    first = second ∧ r = s := by
  -- On the arguments from the last one on, as they are read.
  induction first using List.reverseRecOn generalizing second with
  | nil =>
      rcases List.eq_nil_or_concat' second with rfl | ⟨front, b, rfl⟩
      · exact ⟨rfl, (List.cons.inj h).2⟩
      · rw [backwards_append] at h
        exact absurd rfl ((hsecond b List.mem_concat_self).ne_opening h.symm).1
  | append_singleton front a ih =>
      rw [List.forall_mem_append, List.forall_mem_singleton] at hfirst halone
      rw [backwards_append] at h
      rcases List.eq_nil_or_concat' second with rfl | ⟨front', b, rfl⟩
      · exact absurd rfl (hfirst.2.ne_opening h).1
      rw [List.forall_mem_append, List.forall_mem_singleton] at hsecond
      rw [backwards_append] at h
      obtain ⟨rfl, hfront⟩ := halone.2 hsecond.2 (stops_inFront _ _) (stops_inFront _ _) h
      cases front with
      | nil =>
          cases front' with
          | nil => exact ⟨rfl, (List.cons.inj hfront).2⟩
          | cons => cases (List.cons.inj hfront).1
      | cons =>
          cases front' with
          | nil => cases (List.cons.inj hfront).1
          | cons =>
              obtain ⟨hfronts, hrest⟩ := ih hfirst.1 halone.1 hsecond.1 (List.cons.inj hfront).2
              exact ⟨by rw [hfronts], hrest⟩

/-- **A full name is read in one way.** -/
theorem Sound.readsAlone (ha : a.Sound) : a.ReadsAlone := by
  -- The last character of a name decides what both shapes were made by last.
  induction ha with
  | leaf hnonempty hplain =>
      intro b hb r s hr hs h
      cases hb with
      | @leaf name' _ hplain' =>
          have hreverse {name : String} (hplain : IsPlain name) :
              ∀ c ∈ name.toList.reverse, (!isMark c) = true := by
            intro c hc
            rw [hplain c (List.mem_reverse.mp hc)]
            rfl
          obtain ⟨hnames, hrest⟩ := eq_of_stops (hreverse hplain) (hreverse hplain') hr hs h
          rw [List.reverse_inj, String.toList_inj] at hnames
          exact ⟨congrArg Shape.leaf hnames, hrest⟩
      | vector | array | pointer | byRef | instantiation =>
          exact absurd h (leaf_ne_mark hnonempty hplain rfl)
  | vector helement ih =>
      intro b hb r s hr hs h
      cases hb with
      | leaf hnonempty hplain => exact absurd h.symm (leaf_ne_mark hnonempty hplain rfl)
      | vector helement' =>
          obtain ⟨rfl, hrest⟩ := ih helement' hr hs (List.cons.inj (List.cons.inj h).2).2
          exact ⟨rfl, hrest⟩
      | array htwo =>
          simp only [backward, List.cons_append, List.append_assoc] at h
          obtain ⟨hzero, -⟩ := brackets_inj (n := 0) (List.cons.inj h).2
          omega
      | pointer | byRef | instantiation => cases (List.cons.inj h).1
  | @array _ rank htwo helement ih =>
      intro b hb r s hr hs h
      cases hb with
      | leaf hnonempty hplain => exact absurd h.symm (leaf_ne_mark hnonempty hplain rfl)
      | vector =>
          simp only [backward, List.cons_append, List.append_assoc] at h
          obtain ⟨hzero, -⟩ := brackets_inj (m := 0) (List.cons.inj h).2
          omega
      | @array _ rank' htwo' helement' =>
          simp only [backward, List.cons_append, List.append_assoc] at h
          obtain ⟨hcommas, helements⟩ := brackets_inj (List.cons.inj h).2
          obtain ⟨rfl, hrest⟩ := ih helement' hr hs helements
          obtain rfl : rank = rank' := UInt32.toNat_inj.mp (by omega)
          exact ⟨rfl, hrest⟩
      | pointer | byRef | instantiation => cases (List.cons.inj h).1
  | pointer htarget ih =>
      intro b hb r s hr hs h
      cases hb with
      | leaf hnonempty hplain => exact absurd h.symm (leaf_ne_mark hnonempty hplain rfl)
      | pointer htarget' =>
          obtain ⟨rfl, hrest⟩ := ih htarget' hr hs (List.cons.inj h).2
          exact ⟨rfl, hrest⟩
      | vector | array | byRef | instantiation => cases (List.cons.inj h).1
  | byRef htarget ih =>
      intro b hb r s hr hs h
      cases hb with
      | leaf hnonempty hplain => exact absurd h.symm (leaf_ne_mark hnonempty hplain rfl)
      | byRef htarget' =>
          obtain ⟨rfl, hrest⟩ := ih htarget' hr hs (List.cons.inj h).2
          exact ⟨rfl, hrest⟩
      | vector | array | pointer | instantiation => cases (List.cons.inj h).1
  | instantiation hbase harguments ihbase iharguments =>
      intro b hb r s hr hs h
      cases hb with
      | leaf hnonempty hplain => exact absurd h.symm (leaf_ne_mark hnonempty hplain rfl)
      | instantiation hbase' harguments' =>
          simp only [backward, List.cons_append, List.append_assoc] at h
          obtain ⟨rfl, hbases⟩ := backwards_unique harguments iharguments harguments'
            (List.cons.inj h).2
          obtain ⟨rfl, hrest⟩ := ihbase hbase' hr hs hbases
          exact ⟨rfl, hrest⟩
      | vector | array | pointer | byRef => cases (List.cons.inj h).1

end Shape

/-! ## Types of plain names -/

/-- What signatures refer to has plain names. A generic parameter may
have none. -/
structure PlainNames (scope : Scope) : Prop where
  resolve_nonempty : ∀ token name, scope.resolve token = some name → name ≠ ""
  resolve_plain : ∀ token name, scope.resolve token = some name → IsPlain name
  typeParameter_plain : ∀ row ∈ scope.typeParameters, IsPlain row.2
  methodParameter_plain : ∀ row ∈ scope.methodParameters, IsPlain row.2

variable {scope : Scope}

theorem sound_primitive (p : Primitive) : (Shape.leaf p.fullName).Sound := by
  cases p <;> exact .leaf (by decide) (by decide)

theorem sound_functionPointer : (Shape.leaf "method").Sound := .leaf (by decide) (by decide)

theorem isMark_of_isDigit {c : Char} (h : c.isDigit = true) : isMark c = false := by
  cases hc : isMark c with
  | false => rfl
  | true =>
      simp only [isMark, List.contains_cons, List.contains_nil, Bool.or_eq_true, Bool.or_false,
        beq_iff_eq] at hc
      obtain rfl | rfl | rfl | rfl | rfl | rfl | rfl := hc <;> cases h

/-- A generic parameter is called by its position if it has no name. -/
theorem sound_parameter {rows : List (UInt32 × String)} (hrows : ∀ row ∈ rows, IsPlain row.2)
    (index : UInt32) {mark : String} (hmark : mark ≠ "") (hplain : IsPlain mark) :
    (Shape.leaf ((declaredName? rows index).getD (mark ++ toString index.toNat))).Sound := by
  cases hname : declaredName? rows index with
  | none =>
      rw [Option.getD_none]
      refine .leaf (fun h => hmark (String.append_eq_empty_iff.mp h).1) fun c hc => ?_
      rw [String.toList_append, List.mem_append] at hc
      rcases hc with hc | hc
      · exact hplain c hc
      · have hdigits : c ∈ Nat.toDigits 10 index.toNat := Nat.toList_repr ▸ hc
        exact isMark_of_isDigit (Nat.isDigit_of_mem_toDigits (by decide) (by decide) hdigits)
  | some name =>
      rw [Option.getD_some]
      obtain ⟨row, hrow, rfl⟩ := Option.map_eq_some_iff.mp hname
      have hnamed := List.find?_some hrow
      rw [Bool.and_eq_true] at hnamed
      refine .leaf ?_ (hrows row (List.mem_of_find?_eq_some hrow))
      intro h
      simp [h] at hnamed

mutual

theorem sound_shape (hscope : PlainNames scope) : ∀ signature : Signature,
    signature.isNamed scope = true → (signature.shape scope).Sound
  | vector element, h => .vector (sound_shape hscope element h)
  | array element rank, h => by
      rw [shape]
      split
      case isTrue => exact .vector (sound_shape hscope element h)
      case isFalse hrank => exact .array (Nat.lt_of_not_le hrank) (sound_shape hscope element h)
  | pointer target, h => .pointer (sound_shape hscope target h)
  | byRef target, h => .byRef (sound_shape hscope target h)
  | pinned target, h => sound_shape hscope target h
  | instantiation base arguments, h => by
      rw [isNamed, Bool.and_eq_true] at h
      exact .instantiation (sound_shape hscope base h.1) (sound_shapes hscope arguments h.2)
  | primitive p, _ => sound_primitive p
  | named kind token, h => by
      obtain ⟨name, hname⟩ := Option.isSome_iff_exists.mp h
      rw [shape, fullName, hname]
      exact .leaf (hscope.resolve_nonempty token name hname)
        (hscope.resolve_plain token name hname)
  | typeParameter index, _ =>
      sound_parameter hscope.typeParameter_plain index (by decide) (by decide)
  | methodParameter index, _ =>
      sound_parameter hscope.methodParameter_plain index (by decide) (by decide)
  | functionPointer _ _ _, _ => sound_functionPointer

theorem sound_shapes (hscope : PlainNames scope) : ∀ signatures : List Signature,
    areNamed scope signatures = true → ∀ a ∈ shapes scope signatures, a.Sound
  | [], _ => List.forall_mem_nil _
  | signature :: rest, h => by
      rw [areNamed, Bool.and_eq_true] at h
      exact List.forall_mem_cons.mpr
        ⟨sound_shape hscope signature h.1, sound_shapes hscope rest h.2⟩

end

/-- **A full name tells the shape of a type and nothing else.** -/
theorem fullName_eq_iff_shape_eq (hscope : PlainNames scope) {s t : Signature}
    (hs : s.isNamed scope = true) (ht : t.isNamed scope = true) :
    s.fullName scope = t.fullName scope ↔ s.shape scope = t.shape scope := by
  have hnames : s.fullName scope = t.fullName scope
      ↔ (s.shape scope).backward = (t.shape scope).backward := by
    rw [← reverse_fullName, ← reverse_fullName, List.reverse_inj, String.toList_inj]
  rw [hnames]
  constructor
  · intro h
    have hnothing : Xml.Stops (!isMark ·) [] := nofun
    exact ((sound_shape hscope s hs).readsAlone (sound_shape hscope t ht) hnothing hnothing
      (by rw [h])).1
  · intro h
    rw [h]

/-- Bags of things and of rows of numbers, where only the dimensions of
the rows show. -/
theorem names_of_bags_tell_shape :
    let scope : Scope :=
      ⟨fun token => if token = ⟨2⟩ then some "Game.Bag\x602" else none, [(0, "T"), (1, "")], []⟩
    let bag (kind : TypeKind) (number : Signature) : Signature :=
      instantiation (named kind ⟨2⟩) [typeParameter 1, number]
    let s := vector (bag .classType (array (primitive .int32) 1))
    let t := array (bag .valueType (vector (pinned (primitive .int32)))) 0
    let u := vector (bag .classType (array (primitive .int32) 2))
    PlainNames scope ∧ s.isNamed scope = true ∧ t.isNamed scope = true ∧ u.isNamed scope = true
      ∧ s.fullName scope = "Game.Bag\x602<!1,System.Int32[]>[]"
      ∧ s.fullName scope = t.fullName scope ∧ s.fullName scope ≠ u.fullName scope := by
  intro scope bag s t u
  have hscope : PlainNames scope := by
    have hbag {token : Token} {name : String} (h : scope.resolve token = some name) :
        name = "Game.Bag\x602" := by
      by_cases htoken : token = ⟨2⟩
      · exact (Option.some.inj ((if_pos htoken).symm.trans h)).symm
      · cases (if_neg htoken).symm.trans h
    refine ⟨fun token name h => ?_, fun token name h => ?_, by decide, by decide⟩
    · rw [hbag h]
      decide
    · rw [hbag h]
      decide
  refine ⟨hscope, rfl, rfl, rfl, by decide +kernel, ?_, ?_⟩
  · exact (fullName_eq_iff_shape_eq hscope rfl rfl).mpr rfl
  · intro h
    have hshapes : s.shape scope = u.shape scope :=
      (fullName_eq_iff_shape_eq hscope rfl rfl).mp h
    cases hshapes

end Signature

end SurfaceReport
