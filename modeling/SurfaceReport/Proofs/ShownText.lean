import Mathlib.Data.List.Forall2
import SurfaceReport.Proofs.ByteOrder

/-!
# Text is shown as itself

Bytes that are shown as text lose whatever is no character in them. Bytes
that encode a text lose nothing (`shown_encode`), so that a name which the
program makes up, and every part of a file name that is text already,
comes through being shown unchanged.

The table of what may follow a lead byte is gone through once, lead byte
by lead byte (`tailRanges_of_two` and the two behind it), and decoding a
whole character is one lemma about the table (`decode_of_fits`). What is
left is arithmetic: the digits to base 64 that a character is encoded by
lie in the ranges and add up to the character again.

Being shown does not break a file name up either: a slash is shown only
where one is (`slash_not_mem_decode`), because the ranges leave no way to
spell a small character by several bytes.
-/

namespace SurfaceReport

namespace Utf8

/-! ## Characters that are whole -/

/-- Each byte lies in its range, and there are as many as ranges. -/
def Fits (ranges : List (UInt8 × UInt8)) (tail : Bytes) : Prop :=
  List.Forall₂ (fun range b => range.1 ≤ b ∧ b ≤ range.2) ranges tail

theorem matching_of_fits {ranges : List (UInt8 × UInt8)} {tail : Bytes} (h : Fits ranges tail)
    (rest : Bytes) : matching ranges (tail ++ rest) = ranges.length := by
  induction h with
  | nil => cases rest <;> rfl
  | @cons range b ranges tail hb _ ih =>
      rw [List.cons_append, matching, if_pos hb, ih, List.length_cons]

theorem decode_of_fits {lead : UInt8} {ranges : List (UInt8 × UInt8)} {tail : Bytes}
    (hlead : tailRanges lead = some ranges) (h : Fits ranges tail) (rest : Bytes) :
    decode (lead :: (tail ++ rest)) = assemble lead tail :: decode rest := by
  have hlength : ranges.length = tail.length := h.length_eq
  have hstep : step lead (tail ++ rest) = (assemble lead tail, tail.length) := by
    rw [step, hlead]
    dsimp only
    rw [matching_of_fits h, if_pos rfl, hlength, List.take_left]
  rw [decode, hstep, List.drop_left]

/-! ## Lead bytes -/

theorem tailRanges_of_one {lead : UInt8} (h : lead < 0x80) : tailRanges lead = some [] := by
  rw [tailRanges, if_pos h]

theorem tailRanges_of_two {lead : UInt8} (hlow : 0xC2 ≤ lead) (hhigh : lead < 0xE0) :
    tailRanges lead = some [(0x80, 0xBF)] := by
  unfold tailRanges
  grind

theorem tailRanges_of_three {lead : UInt8} (hlow : 0xE0 ≤ lead) (hhigh : lead < 0xF0) :
    tailRanges lead = some [(if lead = 0xE0 then 0xA0 else 0x80,
      if lead = 0xED then 0x9F else 0xBF), (0x80, 0xBF)] := by
  unfold tailRanges
  grind

theorem tailRanges_of_four {lead : UInt8} (hlow : 0xF0 ≤ lead) (hhigh : lead < 0xF5) :
    tailRanges lead = some [(if lead = 0xF0 then 0x90 else 0x80,
      if lead = 0xF4 then 0x8F else 0xBF), (0x80, 0xBF), (0x80, 0xBF)] := by
  unfold tailRanges
  grind

/-! ## Encoded characters -/

theorem assemble_two (lead b : UInt8) :
    assemble lead [b] = .ofNat (lead.toNat % 32 * 64 + b.toNat % 64) := rfl

theorem assemble_three (lead b c : UInt8) :
    assemble lead [b, c] = .ofNat ((lead.toNat % 16 * 64 + b.toNat % 64) * 64 + c.toNat % 64) := rfl

theorem assemble_four (lead b c d : UInt8) :
    assemble lead [b, c, d] = .ofNat (((lead.toNat % 8 * 64 + b.toNat % 64) * 64
      + c.toNat % 64) * 64 + d.toNat % 64) := rfl

theorem between_of_toNat (low high : UInt8) {n : Nat} (hn : n < 256) (hlow : low.toNat ≤ n)
    (hhigh : n ≤ high.toNat) : low ≤ UInt8.ofNat n ∧ UInt8.ofNat n ≤ high := by
  rw [UInt8.le_iff_toNat_le, UInt8.le_iff_toNat_le, UInt8.toNat_ofNat', Nat.mod_eq_of_lt hn]
  exact ⟨hlow, hhigh⟩

theorem ofNat_eq_iff {b : UInt8} {n : Nat} (hn : n < 256) : UInt8.ofNat n = b ↔ n = b.toNat := by
  rw [← UInt8.toNat_inj, UInt8.toNat_ofNat', Nat.mod_eq_of_lt hn]

/-- A digit behind the first two bytes may be any. -/
theorem digit_fits (n : Nat) :
    (0x80 : UInt8) ≤ .ofNat (n % 64 + 128) ∧ UInt8.ofNat (n % 64 + 128) ≤ 0xBF :=
  between_of_toNat 0x80 0xBF (by omega) (show 128 ≤ _ by omega) (show _ ≤ 191 by omega)

/-- The byte behind the lead byte may have to be larger behind the first
lead byte of its kind, and smaller behind another one. -/
theorem second_fits {n lead : Nat} (first last low high : UInt8) (hn : n < 64)
    (hlead : lead < 256) (hlow : lead = first.toNat → low.toNat ≤ n + 128)
    (hhigh : lead = last.toNat → n + 128 ≤ high.toNat) :
    (if UInt8.ofNat lead = first then low else 0x80) ≤ UInt8.ofNat (n + 128)
      ∧ UInt8.ofNat (n + 128) ≤ (if UInt8.ofNat lead = last then high else 0xBF) := by
  simp only [ofNat_eq_iff hlead]
  refine between_of_toNat _ _ (by omega) ?_ ?_
  · by_cases h : lead = first.toNat
    · rw [if_pos h]
      exact hlow h
    · rw [if_neg h]
      exact Nat.le_add_left 128 n
  · by_cases h : lead = last.toNat
    · rw [if_pos h]
      exact hhigh h
    · rw [if_neg h]
      exact Nat.add_le_add_right (Nat.le_of_lt_succ hn) 128

theorem decode_two {n : Nat} (hlow : 0x80 ≤ n) (hhigh : n < 0x800) (rest : Bytes) :
    decode (.ofNat (n / 64 % 32 + 192) :: .ofNat (n % 64 + 128) :: rest)
      = .ofNat n :: decode rest := by
  have hlead := between_of_toNat 0xC2 0xDF (n := n / 64 % 32 + 192) (by omega)
    (show 194 ≤ _ by omega) (show _ ≤ 223 by omega)
  have hfits : Fits [(0x80, 0xBF)] [.ofNat (n % 64 + 128)] := .cons (digit_fits n) .nil
  have hvalue : assemble (.ofNat (n / 64 % 32 + 192)) [.ofNat (n % 64 + 128)] = .ofNat n := by
    simp only [assemble_two, UInt8.toNat_ofNat']
    congr 1
    omega
  exact hvalue ▸ decode_of_fits (tailRanges_of_two hlead.1 (by grind)) hfits rest

theorem decode_three {n : Nat} (hlow : 0x800 ≤ n) (hhigh : n < 0x10000)
    (hvalid : n < 0xD800 ∨ 0xDFFF < n) (rest : Bytes) :
    decode (.ofNat (n / 4096 % 16 + 224) :: .ofNat (n / 64 % 64 + 128) :: .ofNat (n % 64 + 128)
      :: rest) = .ofNat n :: decode rest := by
  have hlead := between_of_toNat 0xE0 0xEF (n := n / 4096 % 16 + 224) (by omega)
    (show 224 ≤ _ by omega) (show _ ≤ 239 by omega)
  -- A small digit behind 0xE0 would be a longer spelling, a large one behind 0xED a surrogate.
  have hsecond := second_fits (n := n / 64 % 64) 0xE0 0xED 0xA0 0x9F (by omega)
    (show n / 4096 % 16 + 224 < 256 by omega)
    (fun h : _ = 224 => show 160 ≤ _ by omega) (fun h : _ = 237 => show _ ≤ 159 by omega)
  have hvalue : assemble (.ofNat (n / 4096 % 16 + 224))
      [.ofNat (n / 64 % 64 + 128), .ofNat (n % 64 + 128)] = .ofNat n := by
    simp only [assemble_three, UInt8.toNat_ofNat']
    congr 1
    omega
  exact hvalue ▸ decode_of_fits (tailRanges_of_three hlead.1 (by grind))
    (.cons hsecond (.cons (digit_fits n) .nil)) rest

theorem decode_four {n : Nat} (hlow : 0x10000 ≤ n) (hhigh : n < 0x110000) (rest : Bytes) :
    decode (.ofNat (n / 262144 % 8 + 240) :: .ofNat (n / 4096 % 64 + 128)
      :: .ofNat (n / 64 % 64 + 128) :: .ofNat (n % 64 + 128) :: rest)
      = .ofNat n :: decode rest := by
  have hlead := between_of_toNat 0xF0 0xF4 (n := n / 262144 % 8 + 240)
    (by omega) (show 240 ≤ _ by omega) (show _ ≤ 244 by omega)
  -- A small digit behind 0xF0 would be a longer spelling, a large one behind 0xF4 no character.
  have hsecond := second_fits (n := n / 4096 % 64) 0xF0 0xF4 0x90 0x8F (by omega)
    (show n / 262144 % 8 + 240 < 256 by omega)
    (fun h : _ = 240 => show 144 ≤ _ by omega) (fun h : _ = 244 => show _ ≤ 143 by omega)
  have hvalue : assemble (.ofNat (n / 262144 % 8 + 240))
      [.ofNat (n / 4096 % 64 + 128), .ofNat (n / 64 % 64 + 128), .ofNat (n % 64 + 128)]
        = .ofNat n := by
    simp only [assemble_four, UInt8.toNat_ofNat']
    congr 1
    omega
  exact hvalue ▸ decode_of_fits (tailRanges_of_four hlead.1 (by grind))
    (.cons hsecond (.cons (digit_fits (n / 64)) (.cons (digit_fits n) .nil))) rest

theorem decode_encodeChar (c : Char) (rest : Bytes) :
    decode (String.utf8EncodeChar c ++ rest) = c :: decode rest := by
  have hvalid : c.val.toNat < 0xD800 ∨ 0xDFFF < c.val.toNat ∧ c.val.toNat < 0x110000 := c.valid
  have hvalue : Char.ofNat c.val.toNat = c := Char.ofNat_toNat c
  unfold String.utf8EncodeChar
  generalize c.val.toNat = n at hvalid hvalue ⊢
  dsimp only
  subst hvalue
  split
  case isTrue hone =>
    have hlead : UInt8.ofNat n < 0x80 := by
      rw [UInt8.lt_iff_toNat_lt, UInt8.toNat_ofNat', Nat.mod_eq_of_lt (by omega)]
      exact Nat.lt_succ_of_le hone
    have hvalue : assemble (.ofNat n) [] = .ofNat n := by
      simp only [assemble, leadBits, List.length_nil, List.foldl_nil, UInt8.toNat_ofNat']
      congr 1
      omega
    exact hvalue ▸ decode_of_fits (tailRanges_of_one hlead) .nil rest
  case isFalse hone =>
    split
    case isTrue htwo => exact decode_two (by omega) (by omega) rest
    case isFalse htwo =>
      split
      case isTrue hthree => exact decode_three (by omega) (by omega) (by omega) rest
      case isFalse hthree => exact decode_four (by omega) (by omega) rest

/-! ## Encoded texts -/

theorem decode_flatMap_encodeChar (text : List Char) (rest : Bytes) :
    decode (text.flatMap String.utf8EncodeChar ++ rest) = text ++ decode rest := by
  induction text with
  | nil => rfl
  | cons c text ih => rw [List.flatMap_cons, List.append_assoc, decode_encodeChar, ih]; rfl

/-- **A text is shown as itself.** -/
theorem shown_encode (text : String) : shown (encode text) = text := by
  have h := decode_flatMap_encodeChar text.toList []
  rw [List.append_nil] at h
  rw [shown, encode_eq, h, decode, List.append_nil, String.ofList_toList]

theorem encode_ne_nil {text : String} (h : text ≠ "") : encode text ≠ [] := by
  intro hnil
  have hshown := shown_encode text
  rw [hnil, shown, decode] at hshown
  exact h hshown.symm

theorem encode_inj {a b : String} : encode a = encode b ↔ a = b := by
  refine ⟨fun h => ?_, congrArg encode⟩
  rw [← shown_encode a, h, shown_encode]

theorem encode_append (a b : String) : encode (a ++ b) = encode a ++ encode b := by
  rw [encode_eq, encode_eq, encode_eq, String.toList_append, List.flatMap_append]

/-! ## Slashes -/

theorem slash_not_mem_encodeChar {c : Char} (h : c ≠ '/') :
    (0x2F : UInt8) ∉ String.utf8EncodeChar c := by
  have hcode : c.val.toNat ≠ 47 := fun hc => h (Char.toNat_inj.mp hc)
  unfold String.utf8EncodeChar
  generalize c.val.toNat = n at hcode ⊢
  dsimp only
  split
  case isTrue hone =>
    rw [List.mem_singleton, eq_comm, ofNat_eq_iff (by omega)]
    exact hcode
  case isFalse =>
    have hlarge {code : Nat} (hlow : 128 ≤ code) (hhigh : code < 256) :
        (0x2F : UInt8) ≠ .ofNat code := by
      rw [ne_comm, Ne, ofNat_eq_iff hhigh]
      show code ≠ 47
      omega
    split
    · simp only [List.mem_cons, List.not_mem_nil, or_false, not_or]
      exact ⟨hlarge (by omega) (by omega), hlarge (by omega) (by omega)⟩
    · split
      all_goals
        simp only [List.mem_cons, List.not_mem_nil, or_false, not_or]
        repeat' apply And.intro
        all_goals exact hlarge (by omega) (by omega)

theorem slash_not_mem_encode {text : String} (h : '/' ∉ text.toList) :
    (0x2F : UInt8) ∉ encode text := by
  rw [encode_eq, List.mem_flatMap]
  rintro ⟨c, hc, hslash⟩
  refine slash_not_mem_encodeChar ?_ hslash
  rintro rfl
  exact h hc

theorem fits_of_matching {ranges : List (UInt8 × UInt8)} {rest : Bytes}
    (h : matching ranges rest = ranges.length) : Fits ranges (rest.take ranges.length) := by
  induction ranges generalizing rest with
  | nil => exact .nil
  | cons range ranges ih =>
      cases rest with
      | nil => cases h
      | cons b rest =>
          rw [matching] at h
          split at h
          case isTrue hb => exact .cons hb (ih (Nat.succ.inj h))
          case isFalse => cases h

theorem eq_of_ofNat_eq_slash {n : Nat} (h : Char.ofNat n = '/') : n = 47 := by
  by_cases hn : n.isValidChar
  · rw [Char.ofNat, dif_pos hn] at h
    exact congrArg Char.toNat h
  · rw [Char.ofNat, dif_neg hn] at h
    cases h

/-- Behind the first lead byte of its kind, the next byte is large. -/
theorem second_of_fits {lead first last low high b : UInt8} (hne : first ≠ last)
    (hb : (if lead = first then low else 0x80) ≤ b ∧ b ≤ (if lead = last then high else 0xBF))
    (hlead : lead.toNat = first.toNat) : low.toNat ≤ b.toNat ∧ b.toNat ≤ 191 := by
  obtain rfl := UInt8.toNat_inj.mp hlead
  rw [if_pos rfl, if_neg hne] at hb
  exact ⟨UInt8.le_iff_toNat_le.mp hb.1, UInt8.le_iff_toNat_le.mp hb.2⟩

theorem assemble_two_ne_slash {lead : UInt8} {tail : Bytes} (hlow : 0xC2 ≤ lead)
    (hhigh : lead < 0xE0) (h : Fits [(0x80, 0xBF)] tail) : assemble lead tail ≠ '/' := by
  rcases h with _ | ⟨-, _ | _⟩
  rw [assemble_two]
  intro hslash
  have hvalue := eq_of_ofNat_eq_slash hslash
  have hfirst : 194 ≤ lead.toNat := UInt8.le_iff_toNat_le.mp hlow
  have hlast : lead.toNat < 224 := UInt8.lt_iff_toNat_lt.mp hhigh
  omega

theorem assemble_three_ne_slash {lead : UInt8} {tail : Bytes} (hlow : 0xE0 ≤ lead)
    (hhigh : lead < 0xF0)
    (h : Fits [(if lead = 0xE0 then 0xA0 else 0x80, if lead = 0xED then 0x9F else 0xBF),
      (0x80, 0xBF)] tail) : assemble lead tail ≠ '/' := by
  rcases h with _ | ⟨hb, _ | ⟨-, _ | _⟩⟩
  rw [assemble_three]
  intro hslash
  have hvalue := eq_of_ofNat_eq_slash hslash
  have hfirst : 224 ≤ lead.toNat := UInt8.le_iff_toNat_le.mp hlow
  have hlast : lead.toNat < 240 := UInt8.lt_iff_toNat_lt.mp hhigh
  have hsecond := second_of_fits (by decide) hb
  change lead.toNat = 224 → 160 ≤ _ ∧ _ at hsecond
  omega

theorem assemble_four_ne_slash {lead : UInt8} {tail : Bytes} (hlow : 0xF0 ≤ lead)
    (hhigh : lead < 0xF5)
    (h : Fits [(if lead = 0xF0 then 0x90 else 0x80, if lead = 0xF4 then 0x8F else 0xBF),
      (0x80, 0xBF), (0x80, 0xBF)] tail) : assemble lead tail ≠ '/' := by
  rcases h with _ | ⟨hb, _ | ⟨-, _ | ⟨-, _ | _⟩⟩⟩
  rw [assemble_four]
  intro hslash
  have hvalue := eq_of_ofNat_eq_slash hslash
  have hfirst : 240 ≤ lead.toNat := UInt8.le_iff_toNat_le.mp hlow
  have hlast : lead.toNat < 245 := UInt8.lt_iff_toNat_lt.mp hhigh
  have hsecond := second_of_fits (by decide) hb
  change lead.toNat = 240 → 144 ≤ _ ∧ _ at hsecond
  omega

/-- More than one byte makes up a larger character. -/
theorem assemble_ne_slash {lead : UInt8} {ranges : List (UInt8 × UInt8)} {tail : Bytes}
    (hlead : tailRanges lead = some ranges) (hranges : ranges ≠ []) (h : Fits ranges tail) :
    assemble lead tail ≠ '/' := by
  by_cases hone : lead < 0x80
  · rw [tailRanges_of_one hone] at hlead
    exact absurd (Option.some.inj hlead).symm hranges
  by_cases hnone : lead < 0xC2
  · rw [tailRanges, if_neg hone, if_pos hnone] at hlead
    cases hlead
  by_cases htwo : lead < 0xE0
  · rw [tailRanges_of_two (UInt8.not_lt.mp hnone) htwo] at hlead
    cases hlead
    exact assemble_two_ne_slash (UInt8.not_lt.mp hnone) htwo h
  by_cases hthree : lead < 0xF0
  · rw [tailRanges_of_three (UInt8.not_lt.mp htwo) hthree] at hlead
    cases hlead
    exact assemble_three_ne_slash (UInt8.not_lt.mp htwo) hthree h
  by_cases hfour : lead < 0xF5
  · rw [tailRanges_of_four (UInt8.not_lt.mp hthree) hfour] at hlead
    cases hlead
    exact assemble_four_ne_slash (UInt8.not_lt.mp hthree) hfour h
  · unfold tailRanges at hlead
    grind

theorem eq_of_step_eq_slash {lead : UInt8} {rest : Bytes} (h : (step lead rest).1 = '/') :
    lead = 0x2F := by
  unfold step at h
  split at h
  case h_1 => cases h
  case h_2 ranges hlead =>
    dsimp only at h
    split at h
    case isFalse => cases h
    case isTrue hmatching =>
      rw [hmatching] at h
      by_cases hranges : ranges = []
      · subst hranges
        exact UInt8.toNat_inj.mp (eq_of_ofNat_eq_slash h)
      · exact absurd h (assemble_ne_slash hlead hranges (fits_of_matching hmatching))

/-- No slash is shown where none is. -/
theorem slash_not_mem_decode {bytes : Bytes} (h : (0x2F : UInt8) ∉ bytes) : '/' ∉ decode bytes := by
  induction bytes using decode.induct with
  | case1 =>
      rw [decode]
      exact List.not_mem_nil
  | case2 lead rest ih =>
      rw [List.mem_cons, not_or] at h
      rw [decode, List.mem_cons, not_or]
      refine ⟨fun hslash => h.1 (eq_of_step_eq_slash hslash.symm).symm, ih fun hmem => ?_⟩
      exact h.2 (List.mem_of_mem_drop hmem)

end Utf8

end SurfaceReport
