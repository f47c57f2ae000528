import SurfaceReport.Proofs.SparedInput

/-!
# Runs that name one file

What a run writes lies in a directory that is known beforehand, under a
name that is derived from the assembly's. So two runs meet in a file if
and only if they agree on the directory and on the name
(`Path.same_join_iff`), and the rest is reading a name backwards.

The name of a report gives back the stem as it is shown
(`same_outputPath_iff`). That keeps all texts apart. A byte that is no
text is shown as U+FFFD, whichever byte it is, so an assembly whose stem
is no text shares its report with others (`reports_collide_iff`), at
least with the one that is called what its stem is shown as.

The name of a log has to be read from its end, because a stem may hold
anything, also what looks like a time. The two parts of a time hold no
underscore, so the last underscore ends the date and the one before it
the stem, however many digits the year has (`logName_inj`). What is read
is the second that a clock shows, which in a leap second is not the one
among the fields of the start (`clock_fields_miss_leap_seconds`).
-/

namespace SurfaceReport

/-! ## Reports -/

namespace Utf8

/-- The bytes encode a text. -/
def IsText (bytes : Bytes) : Prop := ∃ text, bytes = encode text

theorem IsText.encode_shown {bytes : Bytes} (h : IsText bytes) : encode (shown bytes) = bytes := by
  obtain ⟨text, rfl⟩ := h
  rw [shown_encode]

theorem shown_ne_empty {bytes : Bytes} (h : bytes ≠ []) : shown bytes ≠ "" := by
  obtain ⟨lead, rest, rfl⟩ := List.exists_cons_of_ne_nil h
  rw [shown, decode, ne_eq, String.ofList_eq_empty_iff]
  exact List.cons_ne_nil _ _

end Utf8

namespace Path

theorem stem_ne_nil {p : Path} {stem : Bytes} (h : p.stem? = some stem) : stem ≠ [] := by
  obtain ⟨name, hname, rfl⟩ := Option.map_eq_some_iff.mp h
  have hstep := mem_steps (List.mem_of_getLast? (fileName?_eq_some_iff.mp hname).1)
  unfold stemOf
  split
  case h_1 => exact significant_ne_nil hstep.2
  case h_2 hfront => simpa using hfront

end Path

namespace RunConfig

open Utf8

/-- The directory of the assembly, and of its report. -/
def assemblyDirectory (c : RunConfig) : Path := c.assemblyPath.parent?.getD ⟨[]⟩

/-- The stem of the assembly's name is text, if the assembly has a name. -/
def HasTextStem (c : RunConfig) : Prop := ∀ stem ∈ c.assemblyPath.stem?, IsText stem

variable {c d : RunConfig}

theorem same_outputPath_iff (h : c.assemblyDirectory.Same d.assemblyDirectory) :
    c.outputPath.Same d.outputPath ↔ c.assemblyStem = d.assemblyStem := by
  have hjoin : c.outputPath.Same d.outputPath ↔ _ :=
    Path.same_join_iff c.plain_reportName d.plain_reportName
  rw [hjoin, encode_inj, String.append_left_inj]
  exact and_iff_right h

theorem assemblyStem_of_stem {stem : Bytes} (h : c.assemblyPath.stem? = some stem) :
    c.assemblyStem = shown stem := by
  rw [assemblyStem, h]

/-- A stem that is text can be read off what it is shown as. -/
theorem stem?_of_hasTextStem (h : c.HasTextStem) :
    c.assemblyPath.stem?
      = if c.assemblyStem = "" then none else some (encode c.assemblyStem) := by
  cases hstem : c.assemblyPath.stem? with
  | none => rw [assemblyStem, hstem, if_pos rfl]
  | some stem =>
      rw [assemblyStem_of_stem hstem, if_neg (shown_ne_empty (Path.stem_ne_nil hstem)),
        (h stem hstem).encode_shown]

theorem assemblyStem_eq_iff (hc : c.HasTextStem) (hd : d.HasTextStem) :
    c.assemblyStem = d.assemblyStem ↔ c.assemblyPath.stem? = d.assemblyPath.stem? := by
  constructor
  · intro h
    rw [stem?_of_hasTextStem hc, stem?_of_hasTextStem hd, h]
  · intro h
    rw [assemblyStem, assemblyStem, h]

/-- The same run for the assembly that is called, in the same directory,
what the stem of this one is shown as. -/
def namesake (c : RunConfig) : RunConfig :=
  { c with assemblyPath := c.assemblyDirectory.join (.ofText (c.assemblyStem ++ ".dll")) }

theorem plain_namesake (c : RunConfig) : Path.Plain (encode (c.assemblyStem ++ ".dll")) := by
  refine Path.plain_encode ?_ (getLast?_encode_append _ (b := 0x6C) (by decide +kernel)) (by decide)
  rw [String.toList_append, List.mem_append, not_or]
  exact ⟨c.slash_not_mem_assemblyStem, by decide⟩

theorem assemblyDirectory_namesake (c : RunConfig) :
    c.namesake.assemblyDirectory = c.assemblyDirectory := by
  rw [assemblyDirectory, namesake, assemblyDirectory]
  exact congrArg (Option.getD · ⟨[]⟩) (Path.parent?_join_beside c.plain_namesake c.assemblyPath)

theorem stem?_namesake (h : c.assemblyStem ≠ "") :
    c.namesake.assemblyPath.stem? = some (encode c.assemblyStem) := by
  have hname : c.namesake.assemblyPath.fileName? = some (encode (c.assemblyStem ++ ".dll")) :=
    Path.fileName?_of_same_join c.plain_namesake rfl
  have hdot : encode ".dll" = Path.dot :: encode "dll" := by decide +kernel
  rw [Path.stem?, hname, Option.map_some, encode_append, hdot,
    Path.stemOf_append (encode_ne_nil h) (by decide +kernel)]

/-- **When reports meet in a file.** Assemblies of one directory, however
it is spelled, have the same report exactly if their stems are shown
alike, which for stems that are text is to be the same. A stem that is no
text never has its report to itself. -/
theorem reports_collide_iff (h : c.assemblyDirectory.Same d.assemblyDirectory) :
    (c.outputPath.Same d.outputPath ↔ c.assemblyStem = d.assemblyStem)
      ∧ (c.HasTextStem → d.HasTextStem →
        (c.outputPath.Same d.outputPath ↔ c.assemblyPath.stem? = d.assemblyPath.stem?))
      ∧ (¬c.HasTextStem → c.namesake.HasTextStem
        ∧ c.namesake.assemblyDirectory = c.assemblyDirectory
        ∧ c.namesake.assemblyPath.stem? ≠ c.assemblyPath.stem?
        ∧ c.namesake.outputPath = c.outputPath) := by
  refine ⟨same_outputPath_iff h, fun hc hd => ?_, fun hc => ?_⟩
  · rw [same_outputPath_iff h, assemblyStem_eq_iff hc hd]
  · obtain ⟨stem, hstem, hbroken⟩ : ∃ stem ∈ c.assemblyPath.stem?, ¬IsText stem := by
      simpa [HasTextStem] using hc
    have hshown := assemblyStem_of_stem hstem
    have hne : c.assemblyStem ≠ "" := hshown ▸ shown_ne_empty (Path.stem_ne_nil hstem)
    have hsame : c.namesake.assemblyStem = c.assemblyStem := by
      rw [assemblyStem_of_stem (stem?_namesake hne), shown_encode]
    refine ⟨?_, assemblyDirectory_namesake c, ?_, ?_⟩
    · intro text htext
      rw [stem?_namesake hne] at htext
      exact ⟨_, (Option.some.inj htext).symm⟩
    · rw [stem?_namesake hne, hstem]
      exact fun heq => hbroken ⟨_, (Option.some.inj heq).symm⟩
    · show c.namesake.assemblyDirectory.join _ = c.assemblyDirectory.join _
      rw [assemblyDirectory_namesake, hsame]

/-- An assembly with one letter of its name encoded as a single byte,
which is no text. -/
def singleByteConfig (directory : String) (letter : UInt8) : RunConfig where
  assemblyPath :=
    ⟨(Path.ofText (directory ++ "Caf")).bytes ++ letter :: (Path.ofText ".dll").bytes⟩

theorem not_hasTextStem_singleByte : ¬(singleByteConfig "a/b/" 0xE9).HasTextStem := by
  intro h
  have hstem : (singleByteConfig "a/b/" 0xE9).assemblyPath.stem?
      = some [0x43, 0x61, 0x66, 0xE9] := by
    decide +kernel
  exact absurd (h _ hstem).encode_shown (by decide +kernel)

/-- Two assemblies whose names end in different letters share a report,
and share it with the one that both are shown as. -/
theorem reports_of_single_bytes_collide :
    let c := singleByteConfig "a/b/" 0xE9
    let d := singleByteConfig "a//b/" 0xE8
    c.assemblyDirectory ≠ d.assemblyDirectory ∧ c.assemblyDirectory.Same d.assemblyDirectory
      ∧ ¬c.HasTextStem ∧ c.outputPath.Same d.outputPath ∧ c.namesake.outputPath = c.outputPath := by
  intro c d
  have hsame : c.assemblyDirectory.Same d.assemblyDirectory := by decide +kernel
  obtain ⟨hcollide, -, hnamesake⟩ := reports_collide_iff hsame
  exact ⟨by decide +kernel, hsame, not_hasTextStem_singleByte,
    hcollide.mpr (by decide +kernel), (hnamesake not_hasTextStem_singleByte).2.2.2⟩

/-- Assemblies of one directory that are called differently can share a report. -/
theorem different_stems_share_report :
    ¬∀ c d : RunConfig, c.assemblyDirectory = d.assemblyDirectory →
      c.assemblyPath.stem? ≠ d.assemblyPath.stem? → ¬c.outputPath.Same d.outputPath := by
  intro h
  exact h (singleByteConfig "" 0xE9) (singleByteConfig "" 0xE8) (by decide +kernel)
    (by decide +kernel) (by decide +kernel)

end RunConfig

/-! ## Times in names of logs -/

namespace Moment

/-- The moment lies in a leap second, which is kept at the second before it. -/
def IsLeap (m : Moment) : Prop := 1000000000 ≤ m.nanosecond

instance : DecidablePred IsLeap := fun m => Nat.decLe 1000000000 m.nanosecond

/-- A clock shows the same second of the same day at both moments. In a
leap second it goes on by one, to 60 or, within a minute, to the second
that it shows once more right afterwards. -/
structure SameSecond (m n : Moment) : Prop where
  year : m.year = n.year
  month : m.month = n.month
  day : m.day = n.day
  hour : m.hour = n.hour
  minute : m.minute = n.minute
  second : (if m.IsLeap then m.second + 1 else m.second)
    = if n.IsLeap then n.second + 1 else n.second

/-- The fields of the clock, down to the second. -/
def clockFields (m : Moment) : Int × Nat × Nat × Nat × Nat × Nat :=
  (m.year, m.month, m.day, m.hour, m.minute, m.second)

theorem shownSecond_eq (m : Moment) :
    m.shownSecond = if m.IsLeap then m.second + 1 else m.second := by
  have hbelow := m.nanosecond_lt
  by_cases h : m.IsLeap
  · have hwhole : 1000000000 ≤ m.nanosecond := h
    rw [if_pos h, shownSecond]
    omega
  · have hpart : m.nanosecond < 1000000000 := Nat.lt_of_not_le h
    rw [if_neg h, shownSecond, Nat.div_eq_of_lt hpart, Nat.add_zero]

theorem ofDigitChars_padded (width n : Nat) : Nat.ofDigitChars 10 (padded width n) 0 = n := by
  rw [padded, Nat.ofDigitChars_append, Nat.ofDigitChars_replicate_zero, Nat.mul_zero,
    Nat.ofDigitChars_ten_toDigits]

theorem length_padded_two {n : Nat} (h : n < 100) : (padded 2 n).length = 2 := by
  have hdigits : (Nat.toDigits 10 n).length ≤ 2 :=
    (Nat.length_toDigits_le_iff (by decide) (by decide)).mpr h
  rw [padded, List.length_append, List.length_replicate]
  omega

theorem padded_inj {width m n : Nat} : padded width m = padded width n ↔ m = n := by
  refine ⟨fun h => ?_, congrArg _⟩
  rw [← ofDigitChars_padded width m, h, ofDigitChars_padded]

/-- A field of two digits ends where it has to. -/
theorem padded_append_inj {m n : Nat} (hm : m < 100) (hn : n < 100) {rest rest' : List Char} :
    padded 2 m ++ rest = padded 2 n ++ rest' ↔ m = n ∧ rest = rest' := by
  have hlength := (length_padded_two hm).trans (length_padded_two hn).symm
  rw [List.append_eq_append_iff_of_size_eq_left hlength, padded_inj]

/-- The year that is written. -/
def yearOf : List Char → Int
  | '-' :: digits => -(Nat.ofDigitChars 10 digits 0 : Int)
  | '+' :: digits => Nat.ofDigitChars 10 digits 0
  | digits => Nat.ofDigitChars 10 digits 0

theorem yearOf_padded (n : Nat) : yearOf (padded 4 n) = n := by
  unfold yearOf
  split
  case h_1 h => exact absurd (isDigit_of_mem_padded '-' (h ▸ List.mem_cons_self ..)) (by decide)
  case h_2 h => exact absurd (isDigit_of_mem_padded '+' (h ▸ List.mem_cons_self ..)) (by decide)
  case h_3 => rw [ofDigitChars_padded]

theorem yearOf_yearText (year : Int) : yearOf (yearText year) = year := by
  unfold yearText
  split
  case isTrue =>
    rw [yearOf, ofDigitChars_padded]
    omega
  case isFalse =>
    split
    case isTrue =>
      rw [yearOf, ofDigitChars_padded]
      omega
    case isFalse =>
      rw [yearOf_padded]
      omega

theorem month_le (m : Moment) : m.month ≤ 12 := by
  have h := m.day_mem
  unfold daysInMonth at h
  split at h <;> omega

theorem day_le (m : Moment) : m.day ≤ 31 := by
  have h : m.day ≤ daysInMonth m.year m.month := m.day_mem.2
  unfold daysInMonth at h
  grind

/-- The date in the name of a log. -/
def dateText (m : Moment) : List Char := yearText m.year ++ padded 2 m.month ++ padded 2 m.day

/-- The time of day in the name of a log. -/
def clockText (m : Moment) : List Char :=
  padded 2 m.hour ++ padded 2 m.minute ++ padded 2 m.shownSecond

theorem fileText_eq (m : Moment) : m.fileText = m.dateText ++ '_' :: m.clockText := by
  simp [fileText, dateText, clockText]

theorem dateText_eq_iff {m n : Moment} :
    m.dateText = n.dateText ↔ m.year = n.year ∧ m.month = n.month ∧ m.day = n.day := by
  have hmonth (k : Moment) : k.month < 100 := Nat.lt_of_le_of_lt k.month_le (by decide)
  have hday (k : Moment) : k.day < 100 := Nat.lt_of_le_of_lt k.day_le (by decide)
  have hlength : (padded 2 m.month ++ padded 2 m.day).length
      = (padded 2 n.month ++ padded 2 n.day).length := by
    simp only [List.length_append, length_padded_two (hmonth _), length_padded_two (hday _)]
  have hyear : yearText m.year = yearText n.year ↔ m.year = n.year := by
    refine ⟨fun h => ?_, congrArg _⟩
    rw [← yearOf_yearText m.year, h, yearOf_yearText]
  rw [dateText, dateText, List.append_assoc, List.append_assoc,
    List.append_eq_append_iff_of_size_eq_right hlength, hyear,
    padded_append_inj (hmonth m) (hmonth n), padded_inj]

theorem clockText_eq_iff {m n : Moment} :
    m.clockText = n.clockText
      ↔ m.hour = n.hour ∧ m.minute = n.minute
        ∧ (if m.IsLeap then m.second + 1 else m.second)
          = if n.IsLeap then n.second + 1 else n.second := by
  have hhour (k : Moment) : k.hour < 100 := Nat.lt_trans k.time_lt.1 (by decide)
  have hminute (k : Moment) : k.minute < 100 := Nat.lt_trans k.time_lt.2.1 (by decide)
  rw [clockText, clockText, List.append_assoc, List.append_assoc,
    padded_append_inj (hhour m) (hhour n), padded_append_inj (hminute m) (hminute n), padded_inj,
    shownSecond_eq, shownSecond_eq]

theorem IsTimeChar.ne_underscore {c : Char} (h : IsTimeChar c) : '_' ≠ c := by
  rintro rfl
  rcases h with h | h | h | h <;> cases h

theorem underscore_not_mem_dateText (m : Moment) : '_' ∉ m.dateText := by
  intro h
  rw [dateText, List.mem_append, List.mem_append] at h
  rcases h with (h | h) | h
  · exact (isTimeChar_yearText _ h).ne_underscore rfl
  · exact (isTimeChar_padded _ h).ne_underscore rfl
  · exact (isTimeChar_padded _ h).ne_underscore rfl

theorem underscore_not_mem_clockText (m : Moment) : '_' ∉ m.clockText := by
  intro h
  rw [clockText, List.mem_append, List.mem_append] at h
  rcases h with (h | h) | h <;> exact (isTimeChar_padded _ h).ne_underscore rfl

theorem sameSecond_iff {m n : Moment} :
    m.SameSecond n ↔ m.dateText = n.dateText ∧ m.clockText = n.clockText := by
  rw [dateText_eq_iff, clockText_eq_iff]
  constructor
  · rintro ⟨hyear, hmonth, hday, hhour, hminute, hsecond⟩
    exact ⟨⟨hyear, hmonth, hday⟩, hhour, hminute, hsecond⟩
  · rintro ⟨⟨hyear, hmonth, hday⟩, hhour, hminute, hsecond⟩
    exact ⟨hyear, hmonth, hday, hhour, hminute, hsecond⟩

end Moment

/-! ## Logs -/

/-- Texts are split in one way at their last mark. -/
theorem split_at_last_mark {mark : Char} {front front' back back' : List Char} (h : mark ∉ back)
    (h' : mark ∉ back') :
    front ++ mark :: back = front' ++ mark :: back' ↔ front = front' ∧ back = back' := by
  constructor
  · intro heq
    rcases List.append_eq_append_iff.mp heq with ⟨_ | ⟨c, between⟩, hfront, hback⟩
      | ⟨_ | ⟨c, between⟩, hfront, hback⟩
    · exact ⟨(hfront.trans (List.append_nil _)).symm, (List.cons.inj hback).2⟩
    · exact absurd ((List.cons.inj hback).2 ▸ by simp) h
    · exact ⟨hfront.trans (List.append_nil _), (List.cons.inj hback).2.symm⟩
    · exact absurd ((List.cons.inj hback).2 ▸ by simp) h'
  · rintro ⟨rfl, rfl⟩
    rfl

namespace RunConfig

open Utf8

variable {c d : RunConfig} {started started' : Moment}

theorem toList_logName (c : RunConfig) (started : Moment) :
    (c.logName started).toList
      = (c.assemblyStem.toList ++ '_' :: started.dateText) ++ '_' :: started.clockText
        ++ ".log".toList := by
  simp [logName, String.toList_append, Moment.fileText_eq]

/-- Stem and second can be read off the name of a log. -/
theorem logName_inj :
    c.logName started = d.logName started'
      ↔ c.assemblyStem = d.assemblyStem ∧ started.SameSecond started' := by
  rw [← String.toList_inj, toList_logName, toList_logName, List.append_left_inj,
    split_at_last_mark started.underscore_not_mem_clockText started'.underscore_not_mem_clockText,
    split_at_last_mark started.underscore_not_mem_dateText started'.underscore_not_mem_dateText,
    String.toList_inj, Moment.sameSecond_iff, and_assoc]

theorem same_logs_iff {directory directory' : Path} (h : directory.Same directory') :
    (directory.join (.ofText (c.logName started))).Same
        (directory'.join (.ofText (d.logName started')))
      ↔ c.assemblyStem = d.assemblyStem ∧ started.SameSecond started' := by
  have hjoin : (directory.join (.ofText (c.logName started))).Same
      (directory'.join (.ofText (d.logName started'))) ↔ _ :=
    Path.same_join_iff (c.plain_logName started) (d.plain_logName started')
  rw [encode_inj, logName_inj] at hjoin
  exact hjoin.trans (and_iff_right h)

/-- In one directory, the same logs are written in the same way. -/
theorem logs_eq_iff {directory : Path} :
    directory.join (.ofText (c.logName started)) = directory.join (.ofText (d.logName started'))
      ↔ c.assemblyStem = d.assemblyStem ∧ started.SameSecond started' := by
  have hdirectory : directory.Same directory := rfl
  rw [← same_logs_iff hdirectory]
  refine ⟨fun h => congrArg Path.components h, fun h => ?_⟩
  rw [logName_inj.mpr ((same_logs_iff hdirectory).mp h)]

/-- **When logs meet in a file.** Two runs whose logs go to the same
directory have the same log, if any, exactly if the stems of their
assemblies are shown alike and a clock shows the same second when they
start. -/
theorem logs_collide_iff (h : Option.Rel Path.Same c.logDirectory d.logDirectory)
    (programDirectory : Except IoCause Path) (started started' : Moment) :
    (∃ cause, c.logPath programDirectory started = .error (.io cause)
        ∧ d.logPath programDirectory started' = .error (.io cause))
      ∨ ∃ log log', c.logPath programDirectory started = .ok log
        ∧ d.logPath programDirectory started' = .ok log'
        ∧ (log.Same log' ↔ c.assemblyStem = d.assemblyStem ∧ started.SameSecond started')
        ∧ (c.logDirectory = d.logDirectory →
          (log = log' ↔ c.assemblyStem = d.assemblyStem ∧ started.SameSecond started')) := by
  unfold logPath
  generalize c.logDirectory = directory at h ⊢
  generalize d.logDirectory = directory' at h ⊢
  cases h with
  | none =>
      cases programDirectory with
      | error cause => exact .inl ⟨cause, rfl, rfl⟩
      | ok directory =>
          exact .inr ⟨_, _, rfl, rfl, same_logs_iff rfl, fun _ => logs_eq_iff⟩
  | some hsame =>
      refine .inr ⟨_, _, rfl, rfl, same_logs_iff hsame, fun heq => ?_⟩
      obtain rfl := Option.some.inj heq
      exact logs_eq_iff

/-- Times on the last day of a year that a leap second ends. -/
def newYearsEve (hour : Fin 24) (minute second : Fin 60) (nanosecond : Fin 2000000000) : Moment where
  year := 2016
  month := 12
  day := 31
  hour := hour
  minute := minute
  second := second
  nanosecond := nanosecond
  day_mem := by decide
  time_lt := ⟨hour.isLt, minute.isLt, second.isLt⟩
  nanosecond_lt := nanosecond.isLt

/-- Runs whose assemblies and directories are not spelled in the same way
have the same log within the leap second, and also if the leap second of
the one stands within a minute and the other starts in the second behind
it. The leap second and the one before it have logs of their own, and so
have any other two seconds, and an assembly that is called like a log. -/
theorem logs_collide_in_leap_second :
    let c : RunConfig := ⟨.ofText "Game.dll", .all, some (.ofText "logs")⟩
    let d : RunConfig := ⟨.ofText "Game.exe", .all, some (.ofText "logs/")⟩
    let e : RunConfig := ⟨.ofText "Game_20161231_140309.dll", .all, some (.ofText "logs")⟩
    let Meet (d : RunConfig) (started started' : Moment) : Prop :=
      ∃ log log', c.logPath (.error .noEntry) started = .ok log
        ∧ d.logPath (.error .noEntry) started' = .ok log' ∧ log.Same log'
    let Apart (d : RunConfig) (started started' : Moment) : Prop :=
      ∃ log log', c.logPath (.error .noEntry) started = .ok log
        ∧ d.logPath (.error .noEntry) started' = .ok log' ∧ ¬log.Same log'
    Option.Rel Path.Same c.logDirectory d.logDirectory
      ∧ Meet d (newYearsEve 23 59 59 1000000000) (newYearsEve 23 59 59 1000000005)
      ∧ Apart d (newYearsEve 23 59 59 0) (newYearsEve 23 59 59 1000000000)
      ∧ Meet d (newYearsEve 20 19 23 1000000000) (newYearsEve 20 19 24 0)
      ∧ Apart d (newYearsEve 14 3 9 0) (newYearsEve 14 3 10 0)
      ∧ Option.Rel Path.Same c.logDirectory e.logDirectory
      ∧ Apart e (newYearsEve 14 3 9 0) (newYearsEve 14 3 9 0) := by
  intro c d e Meet Apart
  have hsame : Option.Rel Path.Same c.logDirectory d.logDirectory := .some (by decide +kernel)
  have hsame' : Option.Rel Path.Same c.logDirectory e.logDirectory := .some rfl
  have hstem : c.assemblyStem = d.assemblyStem := by decide +kernel
  have hstem' : c.assemblyStem ≠ e.assemblyStem := by decide +kernel
  have hlogs {d : RunConfig} (h : Option.Rel Path.Same c.logDirectory d.logDirectory)
      (started started' : Moment) : ∃ log log', c.logPath (.error .noEntry) started = .ok log
        ∧ d.logPath (.error .noEntry) started' = .ok log'
        ∧ (log.Same log' ↔ c.assemblyStem = d.assemblyStem ∧ started.SameSecond started') := by
    obtain ⟨cause, hlog, -⟩ | ⟨log, log', hlog, hlog', hiff, -⟩ :=
      logs_collide_iff h (.error .noEntry) started started'
    · cases hlog
    · exact ⟨log, log', hlog, hlog', hiff⟩
  have hmeet {started started' : Moment} (h : started.SameSecond started') :
      Meet d started started' := by
    obtain ⟨log, log', hlog, hlog', hiff⟩ := hlogs hsame started started'
    exact ⟨log, log', hlog, hlog', hiff.mpr ⟨hstem, h⟩⟩
  have hapart {started started' : Moment} (h : ¬started.SameSecond started') :
      Apart d started started' := by
    obtain ⟨log, log', hlog, hlog', hiff⟩ := hlogs hsame started started'
    exact ⟨log, log', hlog, hlog', fun hlogs => h (hiff.mp hlogs).2⟩
  refine ⟨hsame, hmeet ⟨rfl, rfl, rfl, rfl, rfl, by decide⟩,
    hapart fun h => absurd h.second (by decide), hmeet ⟨rfl, rfl, rfl, rfl, rfl, by decide⟩,
    hapart fun h => absurd h.second (by decide), hsame', ?_⟩
  obtain ⟨log, log', hlog, hlog', hiff⟩ := hlogs hsame' (newYearsEve 14 3 9 0) (newYearsEve 14 3 9 0)
  exact ⟨log, log', hlog, hlog', fun hlogs => hstem' (hiff.mp hlogs).1⟩

/-- The fields of the start alone do not say whether logs are the same:
neither have runs whose fields agree the same log, nor runs with the same
log fields that agree. -/
theorem clock_fields_miss_leap_seconds :
    (¬∀ (c d : RunConfig) (programDirectory : Except IoCause Path) (started started' : Moment)
        (log log' : Path), c.logDirectory = d.logDirectory →
        c.logPath programDirectory started = .ok log →
        d.logPath programDirectory started' = .ok log' → c.assemblyStem = d.assemblyStem →
        started.clockFields = started'.clockFields → log = log')
      ∧ ¬∀ (c d : RunConfig) (programDirectory : Except IoCause Path) (started started' : Moment)
        (log log' : Path), c.logDirectory = d.logDirectory →
        c.logPath programDirectory started = .ok log →
        d.logPath programDirectory started' = .ok log' → log = log' →
        started.clockFields = started'.clockFields := by
  let c : RunConfig := ⟨.ofText "Game.dll", .all, some (.ofText "logs")⟩
  constructor
  · intro h
    have hlog := h c c (.error .noEntry) (newYearsEve 23 59 59 0) (newYearsEve 23 59 59 1000000000)
      _ _ rfl rfl rfl rfl rfl
    exact absurd (logs_eq_iff.mp hlog).2.second (by decide)
  · intro h
    have hfields := h c c (.error .noEntry) (newYearsEve 20 19 23 1000000000)
      (newYearsEve 20 19 24 0) _ _ rfl rfl rfl
      (logs_eq_iff.mpr ⟨rfl, rfl, rfl, rfl, rfl, rfl, by decide⟩)
    exact absurd hfields (by decide)

end RunConfig

end SurfaceReport
