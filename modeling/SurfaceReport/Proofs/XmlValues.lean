import SurfaceReport.Proofs.XmlGrammar
import SurfaceReport.Proofs.XmlRoundTrip

/-!
# What is read of a value

Of the characters in a value a document escapes five. The others stand
there as they are, tabs and line ends too, and a reader takes those for
spaces. So a value is read as it is if and only if it is on one line and
holds no tab (`asRead_eq_self_iff`).

What is proved of values comes from one law, that settling line ends and
blanks goes past escaping (`recovered?_escaped`): the five characters
that are escaped are no blanks, and neither is anything in their
entities.
-/

namespace SurfaceReport

namespace Xml

/-! ## What is written of a character -/

/-- The characters that are not written as they are. -/
def specials : List Char := ['<', '>', '&', '\x27', '\x22']

/-- The characters that their entities are made of. -/
def entityChars : List Char := ['&', ';', 'l', 't', 'g', 'a', 'm', 'p', 'o', 's', 'q', 'u']

theorem escape_cases (c : Char) :
    (escape c = [c] ∧ c ∉ specials) ∨ (c ∈ specials ∧ ∀ d ∈ escape c, d ∈ entityChars) := by
  fun_cases escape c with
  | case1 => exact .inr ⟨by decide, by simp [entityChars]⟩
  | case2 => exact .inr ⟨by decide, by simp [entityChars]⟩
  | case3 => exact .inr ⟨by decide, by simp [entityChars]⟩
  | case4 => exact .inr ⟨by decide, by simp [entityChars]⟩
  | case5 => exact .inr ⟨by decide, by simp [entityChars]⟩
  | case6 c hlt hgt hamp hapos hquot =>
      refine .inl ⟨rfl, ?_⟩
      simp only [specials, List.mem_cons, List.not_mem_nil, or_false]
      rintro (rfl | rfl | rfl | rfl | rfl)
      · exact hlt rfl
      · exact hgt rfl
      · exact hamp rfl
      · exact hapos rfl
      · exact hquot rfl

theorem escape_ne_nil (c : Char) : escape c ≠ [] := by
  fun_cases escape c <;> exact List.cons_ne_nil _ _

/-- What the escaped characters and those of their entities have in common
is written if and only if it is there. -/
theorem forall_escape {p : Char → Prop} (hspecials : ∀ c ∈ specials, p c)
    (hentities : ∀ c ∈ entityChars, p c) (c : Char) : (∀ d ∈ escape c, p d) ↔ p c := by
  rcases escape_cases c with ⟨hself, -⟩ | ⟨hspecial, hentity⟩
  · rw [hself, List.forall_mem_singleton]
  · exact ⟨fun _ => hspecials c hspecial, fun _ d hd => hentities d (hentity d hd)⟩

theorem forall_escaped {p : Char → Prop} (hspecials : ∀ c ∈ specials, p c)
    (hentities : ∀ c ∈ entityChars, p c) (value : List Char) :
    (∀ d ∈ escaped value, p d) ↔ ∀ c ∈ value, p c := by
  simp only [escaped, List.mem_flatMap]
  constructor
  · intro h c hc
    exact (forall_escape hspecials hentities c).mp fun d hd => h d ⟨c, hc, hd⟩
  · rintro h d ⟨c, hc, hd⟩
    exact (forall_escape hspecials hentities c).mpr (h c hc) d hd

/-- Between the quotes there is no bracket that opens a tag. -/
theorem not_lt_of_mem_escaped {value : List Char} : ∀ d ∈ escaped value, d ≠ '<' := by
  intro d hd
  obtain ⟨c, -, hdc⟩ := List.mem_flatMap.mp hd
  rcases escape_cases c with ⟨hself, hspecial⟩ | ⟨-, hentity⟩
  · rw [hself] at hdc
    rintro rfl
    exact hspecial (List.mem_singleton.mp hdc ▸ by decide)
  · rintro rfl
    exact absurd (hentity '<' hdc) (by decide)

/-- A blank is written as it is. -/
theorem escape_of_isBlank {c : Char} (h : isBlank c = true) : escape c = [c] := by
  rcases escape_cases c with ⟨hself, -⟩ | ⟨hspecial, -⟩
  · exact hself
  · have hnone : ∀ c ∈ specials, isBlank c = false := by simp [specials, isBlank]
    rw [hnone c hspecial] at h
    cases h

/-- Nothing else is written with blanks. -/
theorem not_isBlank_of_mem_escape {c : Char} (h : isBlank c = false) :
    ∀ d ∈ escape c, isBlank d = false :=
  (forall_escape (p := fun c => isBlank c = false) (by simp [specials, isBlank])
    (by simp [entityChars, isBlank]) c).mpr h

/-! ## What is read of a value -/

theorem lineEnds_of_ne {c : Char} (h : c ≠ '\r') (rest : List Char) :
    lineEnds (c :: rest) = c :: lineEnds rest := by
  rw [lineEnds.eq_def]
  split <;> simp_all

theorem lineEnds_append {word : List Char} (h : ∀ c ∈ word, c ≠ '\r') (rest : List Char) :
    lineEnds (word ++ rest) = word ++ lineEnds rest := by
  induction word with
  | nil => rfl
  | cons c word ih =>
      rw [List.cons_append, lineEnds_of_ne (h c (List.mem_cons_self ..)),
        ih fun d hd => h d (List.mem_cons_of_mem _ hd)]
      rfl

theorem lineEnds_return {cs : List Char} (h : cs.head? ≠ some '\n') :
    lineEnds ('\r' :: cs) = '\n' :: lineEnds cs := by
  rw [lineEnds]
  rintro rest rfl
  exact h rfl

theorem head?_escaped {value : List Char} (h : value.head? ≠ some '\n') :
    (escaped value).head? ≠ some '\n' := by
  cases value with
  | nil => exact h
  | cons c value =>
      have hc : c ≠ '\n' := fun hc => h (hc ▸ rfl)
      have hnone := (forall_escape (p := (· ≠ '\n')) (by simp [specials]) (by simp [entityChars])
        c).mpr hc
      obtain ⟨d, tail, hd⟩ := List.exists_cons_of_ne_nil (escape_ne_nil c)
      rw [escaped, List.flatMap_cons, hd]
      exact fun hhead => hnone d (hd ▸ List.mem_cons_self ..) (Option.some.inj hhead)

theorem lineEnds_escaped (value : List Char) :
    lineEnds (escaped value) = escaped (lineEnds value) := by
  fun_induction lineEnds value with
  | case1 => rfl
  | case2 rest ih =>
      show lineEnds ('\r' :: '\n' :: escaped rest) = '\n' :: escaped (lineEnds rest)
      rw [lineEnds, ih]
  | case3 rest hrest ih =>
      have hhead : rest.head? ≠ some '\n' := by
        intro hrest'
        obtain ⟨tail, rfl⟩ := List.head?_eq_some_iff.mp hrest'
        exact hrest tail rfl
      show lineEnds ('\r' :: escaped rest) = '\n' :: escaped (lineEnds rest)
      rw [lineEnds_return (head?_escaped hhead), ih]
  | case4 c rest hpair hreturn ih =>
      have hc : c ≠ '\r' := hreturn
      have hescape : ∀ d ∈ escape c, d ≠ '\r' :=
        (forall_escape (p := (· ≠ '\r')) (by simp [specials]) (by simp [entityChars]) c).mpr hc
      rw [escaped, List.flatMap_cons, lineEnds_append hescape, ← escaped, ih]
      rfl

theorem spaced_escape (c : Char) :
    spaced (escape c) = escape (if isBlank c then ' ' else c) := by
  cases hblank : isBlank c with
  | true =>
      rw [escape_of_isBlank hblank, spaced, List.map_singleton, if_pos hblank]
      rfl
  | false =>
      have hsame : ∀ d ∈ escape c, (if isBlank d then ' ' else d) = d := fun d hd => by
        rw [not_isBlank_of_mem_escape hblank d hd]
        rfl
      rw [spaced, List.map_congr_left hsame, List.map_id']
      rfl

theorem spaced_escaped (value : List Char) : spaced (escaped value) = escaped (spaced value) := by
  induction value with
  | nil => rfl
  | cons c value ih =>
      have happend : spaced (escape c ++ escaped value)
          = spaced (escape c) ++ spaced (escaped value) := List.map_append ..
      have hcons : escaped (c :: value) = escape c ++ escaped value := rfl
      rw [hcons, happend, spaced_escape, ih]
      rfl

/-- **What is read of a value** that a document was written with. -/
theorem recovered?_escaped (value : List Char) :
    recovered? (escaped value) = some (spaced (lineEnds value)) := by
  rw [recovered?, lineEnds_escaped, spaced_escaped, unescaped?_escaped]

theorem unbroken_asRead (value : String) : Unbroken (asRead value) := by
  intro c hc
  rw [asRead, String.toList_ofList, spaced, List.mem_map] at hc
  obtain ⟨d, -, rfl⟩ := hc
  cases hd : isBlank d with
  | true => exact ⟨by simp, by simp, by simp⟩
  | false =>
      simp only [isBlank, Bool.or_eq_false_iff, decide_eq_false_iff_not] at hd
      exact ⟨hd.1.1.2, hd.1.2, hd.2⟩

theorem asRead_eq_self_iff {value : String} : asRead value = value ↔ Unbroken value := by
  constructor
  · intro h
    rw [← h]
    exact unbroken_asRead value
  · intro h
    have hlines : lineEnds value.toList = value.toList := by
      have happend := lineEnds_append (fun c hc => (h c hc).2.2) []
      rwa [List.append_nil, lineEnds, List.append_nil] at happend
    have hspaced : ∀ c ∈ value.toList, (if isBlank c then ' ' else c) = c := by
      intro c hc
      obtain ⟨htab, hfeed, hreturn⟩ := h c hc
      by_cases hspace : c = ' '
      · rw [hspace]
        rfl
      · simp [isBlank, hspace, htab, hfeed, hreturn]
    rw [asRead, hlines, spaced, List.map_congr_left hspaced, List.map_id', String.ofList_toList]

end Xml

end SurfaceReport
