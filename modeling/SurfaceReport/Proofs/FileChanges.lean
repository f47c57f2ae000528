import SurfaceReport.FileSystem

/-!
# What writing changes

Creating a file, adding to one and writing one whole change what stands
at one place and nothing else (`changesAt_create`, `changesAt_append`,
`changesAt_write`). Only files change: no directory comes or goes, and
so every path leads to the same place before and after
(`ChangesAt.place?_eq`). That is what lets files be followed by their
places through any number of writes, whatever paths they are asked for
by.

A device at the place of a file is left as it is and keeps nothing of
what is written to it (`Entry.rewritten`).
-/

namespace SurfaceReport

theorem eq_ok_of_isOk {ε : Type} {answer : Except ε Unit} (h : answer.isOk = true) :
    answer = .ok () := by
  cases answer with
  | ok => rfl
  | error cause => cases h

namespace FileSystem

variable {fs middle later : FileSystem} {place other : Location} {p : Path}

/-! ## Putting entries -/

theorem find?_of_ne_root (h : place ≠ []) :
    fs.find? place = (fs.entries.find? fun e => e.1 == place).map (·.2) :=
  if_neg h

theorem find?_replaced_self {entries : List (Location × Entry)} (entry : Entry)
    (h : (entries.any fun e => e.1 == place) = true) :
    ((entries.map fun e => if e.1 == place then (place, entry) else e).find?
      fun e => e.1 == place) = some (place, entry) := by
  induction entries with
  | nil => cases h
  | cons e rest ih =>
      by_cases he : e.1 = place
      · simp [he]
      · simp only [List.any_cons, beq_false_of_ne he, Bool.false_or] at h
        simpa [he] using ih h

theorem find?_replaced_of_ne (entries : List (Location × Entry)) (entry : Entry)
    (h : other ≠ place) :
    ((entries.map fun e => if e.1 == place then (place, entry) else e).find?
      fun e => e.1 == other) = entries.find? fun e => e.1 == other := by
  induction entries with
  | nil => rfl
  | cons e rest ih =>
      rw [List.map_cons, List.find?_cons, List.find?_cons, ih]
      by_cases he : e.1 = place
      · have hother : e.1 ≠ other := he ▸ h.symm
        simp only [he, beq_self_eq_true, if_true, beq_false_of_ne h.symm]
      · simp only [beq_false_of_ne he, Bool.false_eq_true, if_false]

theorem find?_put_self (h : place ≠ []) (entry : Entry) :
    (fs.put place entry).find? place = some entry := by
  rw [find?_of_ne_root h, put]
  split
  case isTrue hany => rw [find?_replaced_self entry hany]; rfl
  case isFalse hany =>
    have hnone : (fs.entries.find? fun e => e.1 == place) = none := by
      rw [List.find?_eq_none]
      exact fun e he hplace => hany (List.any_eq_true.mpr ⟨e, he, hplace⟩)
    simp [List.find?_append, hnone]

theorem find?_put_of_ne (h : other ≠ place) (entry : Entry) :
    (fs.put place entry).find? other = fs.find? other := by
  by_cases hroot : other = []
  · subst hroot
    rfl
  rw [find?_of_ne_root hroot, find?_of_ne_root hroot, put]
  split
  case isTrue => rw [find?_replaced_of_ne fs.entries entry h]
  case isFalse => simp [List.find?_append, h.symm]

theorem workingDirectory_put (entry : Entry) :
    (fs.put place entry).workingDirectory = fs.workingDirectory := by
  unfold put
  split <;> rfl

/-! ## Changes at places -/

/-- Only what files hold has changed, and only at the given places. -/
structure ChangesAt (places : Location → Prop) (fs later : FileSystem) : Prop where
  workingDirectory_eq : later.workingDirectory = fs.workingDirectory
  find?_eq : ∀ other, ¬places other → later.find? other = fs.find? other
  /-- No directory comes or goes. -/
  directory_iff : ∀ other, later.find? other = some .directory ↔ fs.find? other = some .directory

namespace ChangesAt

variable {places wider : Location → Prop}

theorem refl (places : Location → Prop) (fs : FileSystem) : ChangesAt places fs fs :=
  ⟨rfl, fun _ _ => rfl, fun _ => Iff.rfl⟩

theorem trans (h : ChangesAt places fs middle) (hlater : ChangesAt places middle later) :
    ChangesAt places fs later where
  workingDirectory_eq := hlater.workingDirectory_eq.trans h.workingDirectory_eq
  find?_eq other hother := (hlater.find?_eq other hother).trans (h.find?_eq other hother)
  directory_iff other := (hlater.directory_iff other).trans (h.directory_iff other)

theorem mono (h : ChangesAt places fs later) (hwider : ∀ other, places other → wider other) :
    ChangesAt wider fs later where
  workingDirectory_eq := h.workingDirectory_eq
  find?_eq other hother := h.find?_eq other fun hplaces => hother (hwider other hplaces)
  directory_iff := h.directory_iff

end ChangesAt

theorem changesAt_put (hplace : fs.find? place ≠ some .directory) (content : ByteArray) :
    ChangesAt (· = place) fs (fs.put place (.file content)) where
  workingDirectory_eq := workingDirectory_put (.file content)
  find?_eq other hother := find?_put_of_ne hother (.file content)
  directory_iff other := by
    by_cases hother : other = place
    · subst hother
      have hroot : other ≠ [] := by
        rintro rfl
        exact hplace rfl
      simp [find?_put_self hroot, hplace]
    · rw [find?_put_of_ne hother]

/-! ## Ways -/

theorem lookup_eq_ok_iff {directory : Location} {name : Bytes} {entry : Entry} :
    fs.lookup directory name = .ok entry
      ↔ name.length ≤ nameLimit ∧ fs.find? (directory ++ [name]) = some entry := by
  unfold lookup
  split
  case isTrue hlong => simp [Nat.not_le.mpr hlong]
  case isFalse hshort =>
    cases fs.find? (directory ++ [name]) <;> simp [Nat.le_of_not_lt hshort]

/-- A name that is not found is at least one that a directory could take. -/
theorem find?_of_lookup_noEntry {directory : Location} {name : Bytes}
    (h : fs.lookup directory name = .error .noEntry) : fs.find? (directory ++ [name]) = none := by
  unfold lookup at h
  split at h
  case isTrue => cases h
  case isFalse =>
    cases hfind : fs.find? (directory ++ [name]) with
    | none => rfl
    | some entry =>
        rw [hfind] at h
        cases h

theorem step_eq_ok_iff {here there : Location} {name : Bytes} :
    fs.step here name = .ok there ↔
      if name = [Path.dot] then there = here
      else if name = [Path.dot, Path.dot] then there = here.dropLast
      else there = here ++ [name] ∧ name.length ≤ nameLimit
        ∧ fs.find? (here ++ [name]) = some .directory := by
  unfold step
  split
  · simp [eq_comm]
  · split
    · simp [eq_comm]
    · rw [← lookup_eq_ok_iff]
      cases fs.lookup here name with
      | error cause => simp
      | ok entry => cases entry <;> simp [eq_comm]

theorem walk_eq_ok_of_directory_iff (h : ∀ other, later.find? other = some .directory
      ↔ fs.find? other = some .directory) (names : List Bytes) (here there : Location) :
    later.walk here names = .ok there ↔ fs.walk here names = .ok there := by
  induction names generalizing here with
  | nil => exact Iff.rfl
  | cons name rest ih =>
      have hstep (next : Location) :
          later.step here name = .ok next ↔ fs.step here name = .ok next := by
        rw [step_eq_ok_iff, step_eq_ok_iff, h]
      unfold walk
      cases hlater : later.step here name with
      | ok next => rw [(hstep next).mp hlater]; exact ih next
      | error cause =>
          cases hfs : fs.step here name with
          | error cause => simp
          | ok next =>
              rw [(hstep next).mpr hfs] at hlater
              cases hlater

/-- The names on a path. -/
def names (p : Path) : List Bytes := (Path.split p.bytes).filter (· ≠ [])

/-- The place where a path starts. -/
def start (fs : FileSystem) (p : Path) : Location :=
  if p.isAbsolute then [] else fs.workingDirectory

theorem destination_eq_ok_iff {d : Destination} :
    fs.destination p = .ok d ↔ usable p = .ok ()
      ∧ ∃ directory, fs.walk (fs.start p) (names p).dropLast = .ok directory
        ∧ d = ⟨directory, (names p).getLast?, p.bytes.getLast? == some Path.separator⟩ := by
  unfold destination
  cases usable p with
  | error cause => exact ⟨nofun, nofun⟩
  | ok =>
      show (fs.walk (fs.start p) (names p).dropLast >>= fun directory => pure (Destination.mk
        directory (names p).getLast? (p.bytes.getLast? == some Path.separator))) = .ok d ↔ _
      cases fs.walk (fs.start p) (names p).dropLast with
      | error cause => exact ⟨nofun, nofun⟩
      | ok directory =>
          constructor
          · intro h
            exact ⟨rfl, directory, rfl, (Except.ok.inj h).symm⟩
          · rintro ⟨-, _, hdirectory, rfl⟩
            cases hdirectory
            rfl

theorem ChangesAt.destination_eq_ok_iff {places : Location → Prop} (h : ChangesAt places fs later)
    (p : Path) (d : Destination) : later.destination p = .ok d ↔ fs.destination p = .ok d := by
  have hstart : later.start p = fs.start p := by rw [start, start, h.workingDirectory_eq]
  simp only [FileSystem.destination_eq_ok_iff, hstart,
    walk_eq_ok_of_directory_iff h.directory_iff]

/-- The place of a file that a path leads to, whether there is one or not. -/
def place? (fs : FileSystem) (p : Path) : Option Location :=
  match fs.destination p with
  | .error _ => none
  | .ok d => if d.isDirectory then none else some (d.directory ++ [d.name.getD []])

theorem place?_eq_some_iff :
    fs.place? p = some place ↔ ∃ d, fs.destination p = .ok d ∧ d.isDirectory = false
      ∧ place = d.directory ++ [d.name.getD []] := by
  unfold place?
  cases fs.destination p with
  | error cause => simp
  | ok d => cases hd : d.isDirectory <;> simp [hd, @eq_comm _ place]

theorem ne_root_of_place? (h : fs.place? p = some place) : place ≠ [] := by
  obtain ⟨d, -, -, rfl⟩ := place?_eq_some_iff.mp h
  simp

/-- Every path leads where it led. -/
theorem ChangesAt.place?_eq {places : Location → Prop} (h : ChangesAt places fs later) (p : Path) :
    later.place? p = fs.place? p := by
  ext place
  rw [place?_eq_some_iff, place?_eq_some_iff]
  exact exists_congr fun d => and_congr (h.destination_eq_ok_iff p d) Iff.rfl

/-! ## Writing -/

/-- What stands where a file was written over whatever stood there. -/
def rewritten (content : ByteArray) : Option Entry → Entry
  | some (.device device) => .device device
  | _ => .file content

/-- Opening a file anew, where no directory stands. -/
theorem create_eq_ok (h : fs.create p = .ok (place, later)) :
    fs.place? p = some place ∧ fs.find? place ≠ some .directory
      ∧ later.find? place = some (rewritten .empty (fs.find? place))
      ∧ ChangesAt (· = place) fs later := by
  unfold create at h
  cases hd : fs.destination p with
  | error cause =>
      rw [hd] at h
      cases h
  | ok d =>
      rw [hd] at h
      simp only [bind, Except.bind] at h
      split at h
      case isTrue => cases h
      case isFalse hfile =>
        rw [Bool.or_eq_true, not_or, Bool.not_eq_true] at hfile
        have hplace : fs.place? p = some (d.directory ++ [d.name.getD []]) :=
          place?_eq_some_iff.mpr ⟨d, hd, hfile.1, rfl⟩
        have hroot := ne_root_of_place? hplace
        split at h
        case h_1 => cases h
        case h_2 device hlookup =>
          obtain ⟨-, hfind⟩ := lookup_eq_ok_iff.mp hlookup
          cases h
          exact ⟨hplace, by simp [hfind], by rw [hfind]; rfl, .refl _ _⟩
        case h_3 content hlookup =>
          obtain ⟨-, hfind⟩ := lookup_eq_ok_iff.mp hlookup
          cases h
          refine ⟨hplace, by simp [hfind], ?_, changesAt_put (by simp [hfind]) .empty⟩
          rw [find?_put_self hroot, hfind]
          rfl
        case h_4 cause hlookup =>
          split at h
          case isFalse => cases h
          case isTrue hcause =>
            have hfind := find?_of_lookup_noEntry (hcause ▸ hlookup)
            cases h
            refine ⟨hplace, by simp [hfind], ?_, changesAt_put (by simp [hfind]) .empty⟩
            rw [find?_put_self hroot, hfind]
            rfl

theorem ChangesAt.withFree {places : Location → Prop} (h : ChangesAt places fs later)
    (free : Option Nat) : ChangesAt places fs { later with free } :=
  ⟨h.workingDirectory_eq, h.find?_eq, h.directory_iff⟩

theorem changesAt_append (fs : FileSystem) (place : Location) (bytes : ByteArray) :
    ChangesAt (· = place) fs (fs.append place bytes).2 := by
  unfold append
  split
  case h_1 content hfind =>
    have hfile : fs.find? place ≠ some .directory := by simp [hfind]
    split
    case h_1 => exact changesAt_put hfile _
    case h_2 room =>
      split
      · exact (changesAt_put hfile _).withFree _
      · exact (changesAt_put hfile _).withFree _
  all_goals exact .refl _ _

/-- Bytes that are written to a file stand behind what it held. -/
theorem find?_append {content bytes : ByteArray} (hfind : fs.find? place = some (.file content))
    (h : (fs.append place bytes).1 = .ok ()) :
    (fs.append place bytes).2.find? place = some (.file (content ++ bytes)) := by
  have hroot : place ≠ [] := by
    rintro rfl
    cases hfind
  unfold append at h ⊢
  rw [hfind] at h ⊢
  dsimp only at h ⊢
  split
  case h_1 => exact find?_put_self hroot _
  case h_2 room hfree =>
    rw [hfree] at h
    dsimp only at h
    split at h
    case isTrue hroom =>
      rw [if_pos hroom]
      exact find?_put_self hroot _
    case isFalse => cases h

theorem append_device {device : Device} {bytes : ByteArray}
    (hfind : fs.find? place = some (.device device)) : (fs.append place bytes).2 = fs := by
  unfold append
  rw [hfind]
  cases device <;> rfl

theorem changesAt_write (fs : FileSystem) (p : Path) (bytes : ByteArray) :
    ChangesAt (fun place => fs.place? p = some place) fs (fs.write p bytes).2 := by
  unfold write
  split
  case h_1 => exact .refl _ _
  case h_2 place opened hcreate =>
    obtain ⟨hplace, -, -, hopened⟩ := create_eq_ok hcreate
    refine (hopened.trans (changesAt_append opened place bytes)).mono ?_
    rintro other rfl
    exact hplace

/-- A document that was written stands where its path leads, whatever stood there. -/
theorem find?_write {bytes : ByteArray} (h : (fs.write p bytes).1 = .ok ()) :
    ∃ place, fs.place? p = some place
      ∧ (fs.write p bytes).2.find? place = some (rewritten bytes (fs.find? place)) := by
  unfold write at h ⊢
  split at h
  case h_1 => cases h
  case h_2 place opened hcreate =>
    obtain ⟨hplace, -, hfind, -⟩ := create_eq_ok hcreate
    refine ⟨place, hplace, ?_⟩
    generalize fs.find? place = old at hfind ⊢
    rcases old with _ | _ | _ | device
    case some.device => rw [append_device hfind]; exact hfind
    all_goals
      rw [find?_append hfind h, ByteArray.empty_append]
      rfl

theorem rewritten_rewritten (bytes earlier : ByteArray) (old : Option Entry) :
    rewritten bytes (some (rewritten earlier old)) = rewritten bytes old := by
  rcases old with _ | _ | _ | _ <;> rfl

end FileSystem

end SurfaceReport
