import SurfaceReport.Proofs.FileChanges
import SurfaceReport.Report.Xml

/-!
# Writes that stop part-way

A document is made before its file is opened, but opening a file anew
empties it, and from then on there is no way back. Where the room does not
suffice, the file holds the beginning of the document that there is room
for, whatever it held before (`write_short`).

A write that fails otherwise leaves everything as it is: it fails before
the file is opened, or there is no file but a device (`write_error_cases`).
So failures do no harm exactly where each that comes behind the opening
finds the same beginning in the file already
(`failed_write_harmless_iff`).
-/

namespace SurfaceReport

namespace FileSystem

variable {fs opened later : FileSystem} {p : Path} {place : Location} {content bytes : ByteArray}
  {room : Nat} {cause : IoCause}

/-- The path can be opened to be written anew, and leads to a file then. -/
def OpensFile (fs : FileSystem) (p : Path) (place : Location) : Prop :=
  ∃ opened, fs.create p = .ok (place, opened) ∧ opened.find? place = some (.file .empty)

theorem free_put (entry : Entry) : (fs.put place entry).free = fs.free := by
  unfold put
  split <;> rfl

theorem free_create (h : fs.create p = .ok (place, opened)) : opened.free = fs.free := by
  unfold create at h
  cases hd : fs.destination p with
  | error cause =>
      rw [hd] at h
      cases h
  | ok d =>
      rw [hd] at h
      simp only [bind, Except.bind] at h
      split at h
      case isTrue => cases h
      case isFalse =>
        split at h
        case h_1 => cases h
        case h_2 =>
          cases h
          rfl
        case h_3 =>
          cases h
          exact free_put _
        case h_4 =>
          split at h
          case isTrue =>
            cases h
            exact free_put _
          case isFalse => cases h

/-- What there is no room for is not written. -/
theorem append_short (hfind : fs.find? place = some (.file content)) (hfree : fs.free = some room)
    (hroom : room < bytes.size) : (fs.append place bytes).1 = .error .noSpace
      ∧ (fs.append place bytes).2.find? place = some (.file (content ++ bytes.extract 0 room)) := by
  have hroot : place ≠ [] := by
    rintro rfl
    cases hfind
  unfold append
  rw [hfind, hfree]
  dsimp only
  rw [if_neg (Nat.not_le.mpr hroom)]
  exact ⟨rfl, find?_put_self hroot _⟩

theorem append_error (hfind : fs.find? place = some (.file content))
    (h : (fs.append place bytes).1 = .error cause) :
    ∃ room, fs.free = some room ∧ room < bytes.size := by
  unfold append at h
  rw [hfind] at h
  dsimp only at h
  cases hfree : fs.free with
  | none =>
      rw [hfree] at h
      cases h
  | some room =>
      rw [hfree] at h
      dsimp only at h
      split at h
      case isTrue => cases h
      case isFalse hroom => exact ⟨room, rfl, Nat.lt_of_not_le hroom⟩

/-- Behind the opening there is no way back. -/
theorem write_short (hopens : fs.OpensFile p place) (hfree : fs.free = some room)
    (hroom : room < bytes.size) : (fs.write p bytes).1 = .error .noSpace
      ∧ (fs.write p bytes).2.find? place = some (.file (bytes.extract 0 room))
      ∧ ChangesAt (· = place) fs (fs.write p bytes).2 := by
  obtain ⟨opened, hcreate, hempty⟩ := hopens
  obtain ⟨-, -, -, hopened⟩ := create_eq_ok hcreate
  obtain ⟨hcause, hfile⟩ := append_short hempty ((free_create hcreate).trans hfree) hroom
  rw [ByteArray.empty_append] at hfile
  rw [write, hcreate]
  exact ⟨hcause, hfile, hopened.trans (changesAt_append opened place bytes)⟩

/-- Opening a device changes nothing. -/
theorem find?_create_device {device : Device} (h : fs.create p = .ok (place, opened))
    (hfind : fs.find? place = some (.device device)) (other : Location) :
    opened.find? other = fs.find? other := by
  obtain ⟨-, -, hplace, hchanges⟩ := create_eq_ok h
  by_cases hother : other = place
  · rw [hother, hplace, hfind]
    rfl
  · exact hchanges.find?_eq other hother

theorem write_error_cases (h : (fs.write p bytes).1 = .error cause) :
    (∀ place, (fs.write p bytes).2.find? place = fs.find? place)
      ∨ ∃ place room, fs.OpensFile p place ∧ fs.free = some room ∧ room < bytes.size := by
  unfold write at h ⊢
  split at h
  case h_1 => exact .inl fun _ => rfl
  case h_2 place opened hcreate =>
    obtain ⟨-, -, hfind, -⟩ := create_eq_ok hcreate
    by_cases hdevice : ∃ device, fs.find? place = some (.device device)
    · obtain ⟨device, hold⟩ := hdevice
      rw [hold] at hfind
      refine .inl fun other => ?_
      rw [append_device hfind]
      exact find?_create_device hcreate hold other
    · have hempty : opened.find? place = some (.file .empty) := by
        rw [hfind]
        rcases hold : fs.find? place with _ | _ | _ | device
        case some.device => exact absurd ⟨device, hold⟩ hdevice
        all_goals rfl
      obtain ⟨room, hfree, hroom⟩ := append_error hempty h
      exact .inr ⟨place, room, ⟨opened, hcreate, hempty⟩,
        (free_create hcreate).symm.trans hfree, hroom⟩

end FileSystem

open FileSystem

/-- **What a document leaves that cannot be written.** -/
theorem failed_write_harmless_iff (root : Node) (p : Path) (fs : FileSystem) :
    let answer := fs.write p (Xml.bytes root)
    (∀ place room, fs.OpensFile p place → fs.free = some room → room < (Xml.bytes root).size →
      answer.1 = .error .noSpace
        ∧ answer.2.find? place = some (.file ((Xml.bytes root).extract 0 room))
        ∧ ChangesAt (· = place) fs answer.2)
    ∧ ((∀ cause, answer.1 = .error cause → ∀ place, answer.2.find? place = fs.find? place)
      ↔ ∀ place room, fs.OpensFile p place → fs.free = some room →
        room < (Xml.bytes root).size →
          fs.find? place = some (.file ((Xml.bytes root).extract 0 room))) := by
  intro answer
  refine ⟨fun place room hopens hfree hroom => write_short hopens hfree hroom, ?_, ?_⟩
  · intro hharmless place room hopens hfree hroom
    obtain ⟨hcause, hfile, -⟩ := write_short hopens hfree hroom
    exact (hharmless _ hcause place).symm.trans hfile
  · intro hsame cause hcause other
    obtain hkept | ⟨place, room, hopens, hfree, hroom⟩ := write_error_cases hcause
    · exact hkept other
    obtain ⟨-, hfile, hchanges⟩ := write_short hopens hfree hroom
    by_cases hother : other = place
    · rw [hother]
      exact hfile.trans (hsame place room hopens hfree hroom).symm
    · exact hchanges.find?_eq other hother

/-- A report that was there is lost, for the first bytes of the new one. -/
theorem short_write_tears_report :
    let report := Path.ofText "Game_Export.xml"
    let fs : FileSystem := ⟨[([report.bytes], .file "<Assembly/>".toUTF8)], [], some 5⟩
    let answer := fs.write report (Xml.bytes ⟨"Assembly", [("Name", "Game")], []⟩)
    answer.1.isOk = false ∧ answer.2.find? [report.bytes] = some (.file "<?xml".toUTF8) := by
  decide +kernel

end SurfaceReport
