import SurfaceReport.Text.Utf8

/-!
# The order of texts is the order of their bytes

Texts are compared character by character, by code point. Whoever sorts
the encoded bytes instead gets the same order: that is what UTF-8 was
made for, and it is why a report can be checked with tools that know
nothing about characters.

The proof looks for the place where two encodings go apart. Two
different characters go apart within their own bytes
(`parts_encodeChar`): either their lead bytes already differ, or both
encodings have the same number of bytes and the digits to base 64 decide.
What follows such a place never matters (`Parts.lex_append`).
-/

namespace SurfaceReport

namespace Utf8

/-! ## The bytes of a text -/

/-- Listing the bytes from a place on adds what is behind that place. -/
theorem listing_from (text : ByteArray) (place : Nat) (before : Bytes) :
    ByteArray.toList.loop text place before
      = before.reverse ++ text.data.toList.drop place := by
  fun_induction ByteArray.toList.loop text place before with
  | case1 place before h ih =>
      have hplace : place < text.data.toList.length := h
      have hget : text.get! place = text.data.toList[place] := by
        rw [ByteArray.get!, getElem!_pos text.data place h, Array.getElem_toList]
      rw [ih, List.drop_eq_getElem_cons hplace, List.reverse_cons, List.append_assoc, hget]
      rfl
  | case2 place before h =>
      rw [List.drop_eq_nil_of_le (Nat.le_of_not_lt h), List.append_nil]

theorem encode_eq (text : String) :
    encode text = text.toList.flatMap String.utf8EncodeChar := by
  have hall := listing_from text.toUTF8 0 []
  rw [encode, ByteArray.toList, hall, String.toUTF8_eq_toByteArray, ← String.utf8Encode_toList]
  simp [List.utf8Encode]

/-- The bytes of a text encode it. -/
theorem text?_encode (text : String) : text? (encode text) = some text := by
  have hall : encode text = text.toUTF8.data.toList := listing_from text.toUTF8 0 []
  unfold text?
  rw [hall, Array.toArray_toList, String.toUTF8_eq_toByteArray, String.fromUTF8?,
    dif_pos text.isValidUTF8]
  rfl

/-! ## Where two encodings go apart -/

/-- At some place `u` has a smaller byte than `v`, and up to there they agree. -/
inductive Parts : Bytes → Bytes → Prop where
  | here {x y : UInt8} {u v : Bytes} (h : x < y) : Parts (x :: u) (y :: v)
  | later {x : UInt8} {u v : Bytes} (h : Parts u v) : Parts (x :: u) (x :: v)

/-- Once two encodings have gone apart, nothing behind them matters. -/
theorem Parts.lex_append {u v : Bytes} (h : Parts u v) (r s : Bytes) :
    List.Lex (· < ·) (u ++ r) (v ++ s) := by
  induction h with
  | here h => exact .rel h
  | later _ ih => exact .cons ih

theorem parts_of_lt {m n : Nat} (u v : Bytes) (hmn : m < n) (hn : n < 256) :
    Parts (.ofNat m :: u) (.ofNat n :: v) := by
  refine .here ?_
  rw [UInt8.lt_iff_toNat_lt, UInt8.toNat_ofNat', UInt8.toNat_ofNat']
  omega

theorem parts_of_le {m n : Nat} {u v : Bytes} (hmn : m ≤ n) (hn : n < 256)
    (h : m = n → Parts u v) : Parts (.ofNat m :: u) (.ofNat n :: v) := by
  rcases Nat.lt_or_eq_of_le hmn with hlt | rfl
  · exact parts_of_lt u v hlt hn
  · exact .later (h rfl)

theorem parts_encodeChar {c d : Char} (h : c < d) :
    Parts (String.utf8EncodeChar c) (String.utf8EncodeChar d) := by
  have hlt : c.val.toNat < d.val.toNat := h
  have hd : d.val.toNat < 0x110000 := by
    have hvalid := d.valid
    simp only [UInt32.isValidChar, Nat.isValidChar] at hvalid
    omega
  unfold String.utf8EncodeChar
  generalize c.val.toNat = m at *
  generalize d.val.toNat = n at *
  -- `m` and `n` lie in one of four ranges each, one range for each length of an encoding.
  simp only
  split
  · split
    · exact parts_of_lt _ _ hlt (by omega)
    · split
      · exact parts_of_lt _ _ (by omega) (by omega)
      · split <;> exact parts_of_lt _ _ (by omega) (by omega)
  · rw [if_neg (by omega : ¬n ≤ 0x7f)]
    split
    · split
      · exact parts_of_le (by omega) (by omega) fun _ => parts_of_lt _ _ (by omega) (by omega)
      · split <;> exact parts_of_lt _ _ (by omega) (by omega)
    · rw [if_neg (by omega : ¬n ≤ 0x7ff)]
      split
      · split
        · exact parts_of_le (by omega) (by omega) fun _ =>
            parts_of_le (by omega) (by omega) fun _ => parts_of_lt _ _ (by omega) (by omega)
        · exact parts_of_lt _ _ (by omega) (by omega)
      · rw [if_neg (by omega : ¬n ≤ 0xffff)]
        exact parts_of_le (by omega) (by omega) fun _ =>
          parts_of_le (by omega) (by omega) fun _ =>
            parts_of_le (by omega) (by omega) fun _ => parts_of_lt _ _ (by omega) (by omega)

/-! ## Texts -/

theorem lex_append_left (p : Bytes) {u v : Bytes} (h : List.Lex (· < ·) u v) :
    List.Lex (· < ·) (p ++ u) (p ++ v) := by
  induction p with
  | nil => exact h
  | cons x p ih => exact .cons ih

theorem lex_flatMap_encodeChar {s t : List Char} (h : List.Lex (· < ·) s t) :
    List.Lex (· < ·) (s.flatMap String.utf8EncodeChar) (t.flatMap String.utf8EncodeChar) := by
  induction h with
  | nil =>
      rename_i c t
      obtain ⟨x, u, hx⟩ := List.exists_cons_of_ne_nil (String.utf8EncodeChar_ne_nil (c := c))
      rw [List.flatMap_nil, List.flatMap_cons, hx]
      exact .nil
  | cons _ ih =>
      rw [List.flatMap_cons, List.flatMap_cons]
      exact lex_append_left _ ih
  | rel h =>
      rw [List.flatMap_cons, List.flatMap_cons]
      exact (parts_encodeChar h).lex_append _ _

/-- `a` comes before `b` in the order of the bytes that encode them. -/
def Before (a b : String) : Prop := List.Lex (· < ·) (encode a) (encode b)

theorem before_of_lt {a b : String} (h : a < b) : Before a b := by
  rw [Before, encode_eq, encode_eq]
  exact lex_flatMap_encodeChar h

theorem not_before_self (a : String) : ¬Before a a :=
  List.lex_irrefl UInt8.lt_irrefl _

theorem Before.not_before {a b : String} (h : Before a b) : ¬Before b a :=
  List.lex_asymm UInt8.lt_asymm h

theorem before_iff_lt {a b : String} : Before a b ↔ a < b := by
  constructor
  · intro h
    rcases Std.lt_trichotomy a b with hlt | rfl | hgt
    · exact hlt
    · exact absurd h (not_before_self a)
    · exact absurd h (before_of_lt hgt).not_before
  · exact before_of_lt

/-- What does not come after by its bytes is at most as large. -/
theorem not_before_iff_le {a b : String} : ¬Before b a ↔ a ≤ b := by
  rw [before_iff_lt, Std.not_lt]

end Utf8

end SurfaceReport
