import SurfaceReport.Namespaces

/-!
# What arrives of a listing

A listing is written piece by piece to a receiver that may run out of room
in any of them, also within a character. Where that happens makes no
difference: what is written in pieces arrives as if it were written at
once (`writeAll_eq`), so the beginning that there is room for arrives,
whatever the pieces are.

It is flushed only if there is room for all of it, which may be none to
spare, so a failure tells which of the two went wrong
(`listing_arrives`).
-/

namespace SurfaceReport

namespace Receiver

variable {r : Receiver} {bytes : ByteArray} {room : Nat}

/-! ## Pieces -/

theorem write_of_le (hroom : r.room = some room) (h : bytes.size ≤ room) :
    r.write bytes
      = (.ok (), { r with room := some (room - bytes.size), received := r.received ++ bytes }) := by
  rw [write, hroom]
  exact if_pos h

/-- There is no room for the last of the bytes. -/
theorem write_of_lt (hroom : r.room = some room) (h : room < bytes.size) :
    r.write bytes
      = (.error (.io (.other "writer full")),
        { r with room := some 0, received := r.received ++ bytes.extract 0 room }) := by
  rw [write, hroom]
  exact if_neg (Nat.not_le.mpr h)

theorem write_of_none (hroom : r.room = none) :
    r.write bytes = (.ok (), { r with received := r.received ++ bytes }) := by
  rw [write, hroom]

theorem write_empty (r : Receiver) : r.write .empty = (.ok (), r) := by
  obtain ⟨_ | room, flushFails, received, flushes⟩ := r
  · rw [write_of_none rfl, ByteArray.append_empty]
  · rw [write_of_le rfl (Nat.zero_le room), ByteArray.append_empty]
    rfl

theorem extract_of_size_le (h : bytes.size ≤ room) : bytes.extract 0 room = bytes := by
  rw [← Nat.max_eq_left h]
  exact ByteArray.extract_zero_max_size

/-- What is written in two pieces arrives as if it were written at once. -/
theorem write_append (r : Receiver) (bytes rest : ByteArray) :
    r.write (bytes ++ rest) = match r.write bytes with
      | (.ok (), r) => r.write rest
      | failed => failed := by
  have hsize : (bytes ++ rest).size = bytes.size + rest.size := ByteArray.size_append
  obtain ⟨_ | room, flushFails, received, flushes⟩ := r
  · rw [write_of_none rfl, write_of_none rfl]
    dsimp only
    rw [write_of_none rfl, ByteArray.append_assoc]
  by_cases hbytes : bytes.size ≤ room
  · rw [write_of_le rfl hbytes]
    dsimp only
    by_cases hrest : rest.size ≤ room - bytes.size
    · rw [write_of_le rfl (by omega), write_of_le rfl hrest, hsize, Nat.sub_sub,
        ByteArray.append_assoc]
    · rw [write_of_lt rfl (by omega), write_of_lt rfl (by omega), ByteArray.extract_append,
        extract_of_size_le hbytes, Nat.zero_sub, ByteArray.append_assoc]
  · -- The first piece takes all the room, so nothing of the second is tried.
    have hnothing : rest.extract (0 - bytes.size) (room - bytes.size) = .empty := by
      rw [ByteArray.extract_eq_empty_iff]
      omega
    rw [write_of_lt rfl (by omega), write_of_lt rfl (by omega), ByteArray.extract_append,
      hnothing, ByteArray.append_empty]

/-- Any number of pieces arrive as if they were written at once. -/
theorem writeAll_eq (r : Receiver) (pieces : List String) :
    r.writeAll pieces = r.write (String.join pieces).toUTF8 := by
  induction pieces generalizing r with
  | nil => exact (write_empty r).symm
  | cons piece pieces ih =>
      have hbytes : (String.join (piece :: pieces)).toUTF8
          = piece.toUTF8 ++ (String.join pieces).toUTF8 := by
        rw [String.join_cons]
        exact String.toByteArray_append
      rw [hbytes, write_append, writeAll]
      rcases r.write piece.toUTF8 with ⟨cause | ⟨⟩, later⟩
      · rfl
      · exact ih later

end Receiver

/-! ## Listings -/

/-- The text of a listing: the header, and the namespaces in order, each on
a line of its own. -/
def listingText (namespaces : List String) : String :=
  "Available namespaces:\n" ++ String.join (namespaces.map fun ns => "- " ++ ns ++ "\n")

theorem join_listingLines (namespaces : List String) :
    String.join (listingLines namespaces) = listingText namespaces := by
  unfold listingLines listingText listingHeader listingLine
  rw [String.join_cons]

variable {room : Nat}

theorem writeListing_of_lt (flushFails : Bool) {namespaces : List String}
    (h : room < (listingText namespaces).toUTF8.size) :
    writeListing { room := some room, flushFails } namespaces
      = (.error (.io (.other "writer full")),
        { room := some 0, flushFails
          received := (listingText namespaces).toUTF8.extract 0 room }) := by
  rw [writeListing, Receiver.writeAll_eq, join_listingLines, Receiver.write_of_lt rfl h,
    ByteArray.empty_append]

theorem writeListing_of_le (flushFails : Bool) {namespaces : List String}
    (h : (listingText namespaces).toUTF8.size ≤ room) :
    writeListing { room := some room, flushFails } namespaces
      = (if flushFails then .error (.io (.other "flush failed")) else .ok (),
        { room := some (room - (listingText namespaces).toUTF8.size), flushFails
          received := (listingText namespaces).toUTF8, flushes := 1 }) := by
  rw [writeListing, Receiver.writeAll_eq, join_listingLines, Receiver.write_of_le rfl h,
    ByteArray.empty_append]
  rfl

/-- **What arrives of a listing.** -/
theorem listing_arrives (namespaces : List String) (room : Nat) (flushFails : Bool) :
    let bytes := (listingText namespaces).toUTF8
    let r : Receiver := { room := some room, flushFails }
    let answer := writeListing r namespaces
    answer.2.received = bytes.extract 0 (min room bytes.size)
      ∧ (answer.1 = .error (.io (.other "writer full")) ↔ room < bytes.size)
      ∧ answer.2.flushes = (if room < bytes.size then 0 else 1)
      ∧ (bytes.size ≤ room →
        answer.1 = if flushFails then .error (.io (.other "flush failed")) else .ok ())
      ∧ ∀ pieces, String.join pieces = listingText namespaces →
        r.writeAll pieces = r.writeAll (listingLines namespaces) := by
  intro bytes r answer
  have hpieces : ∀ pieces, String.join pieces = listingText namespaces →
      r.writeAll pieces = r.writeAll (listingLines namespaces) := by
    intro pieces hjoin
    rw [Receiver.writeAll_eq, Receiver.writeAll_eq, hjoin, join_listingLines]
  by_cases hroom : room < bytes.size
  · have hanswer : answer = _ := writeListing_of_lt flushFails hroom
    rw [hanswer, if_pos hroom, Nat.min_eq_left (Nat.le_of_lt hroom)]
    exact ⟨rfl, iff_of_true rfl hroom, rfl, fun h => absurd hroom (Nat.not_lt.mpr h), hpieces⟩
  · have hle : bytes.size ≤ room := Nat.le_of_not_lt hroom
    have hanswer : answer = _ := writeListing_of_le flushFails hle
    rw [hanswer, if_neg hroom, Nat.min_eq_right hle, ByteArray.extract_zero_size]
    refine ⟨rfl, iff_of_false ?_ hroom, rfl, fun _ => rfl, hpieces⟩
    cases flushFails <;> simp

/-- There is room for one of the two bytes of a letter. In pieces, the same
beginning arrives. -/
theorem listing_stops_within_letter :
    let r : Receiver := { room := some 27, flushFails := true }
    let answer := writeListing r ["Größe", ""]
    answer.1 = .error (.io (.other "writer full")) ∧ answer.2.flushes = 0
      ∧ answer.2.received = "Available namespaces:\n- Gr".toUTF8.push 0xC3
      ∧ (r.writeAll ["Available namespaces:", "\n", "- ", "Größe", "\n", "- ", "", "\n"]).2.received
        = answer.2.received := by
  intro r answer
  obtain ⟨hreceived, hfull, hflushes, -, hpieces⟩ := listing_arrives ["Größe", ""] 27 true
  have hlt : 27 < (listingText ["Größe", ""]).toUTF8.size := by decide +kernel
  refine ⟨hfull.mpr hlt, hflushes.trans (if_pos hlt), hreceived.trans (by decide +kernel), ?_⟩
  rw [hpieces _ (by decide +kernel)]
  decide +kernel

end SurfaceReport
