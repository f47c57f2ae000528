import SurfaceReport.Proofs.FileChanges
import SurfaceReport.Proofs.Walk
import SurfaceReport.RunLog

/-!
# Reading a run log

The file of a run log is the lines of its events, each with the time at
which it was recorded in front. Nothing in a message is escaped. So the
file can be read back, by its lines or event by event, exactly if no
message holds a line feed (`isLog_ended`).

The exact count carries both directions (`length_linesOf_ended`): a file
has one line for each event and one more for each line feed in a message.
-/

namespace SurfaceReport

/-! ## Receivers that refuse none of some events -/

namespace EventSink

/-- Handed these events one after the other, the receiver refuses none. -/
def Accepts {σ : Type} (sink : EventSink σ) : List Event → σ → Prop
  | [], _ => True
  | e :: rest, s => (sink.record e s).1 = .ok () ∧ sink.Accepts rest (sink.record e s).2

end EventSink

namespace RunLog

/-! ## Lines -/

/-- The lines of events that are recorded one after the other, from a reading of the clock on. -/
def lines (clock : Nat → Moment) : Nat → List Event → List String
  | _, [] => []
  | reading, e :: rest => e.line (clock reading) :: lines clock (reading + 1) rest

/-- Some lines, each with a line feed behind it. -/
def ended (lines : List String) : String := .join (lines.map (· ++ "\n"))

/-- The lines of a text. What stands behind the last line feed is one too, unless nothing does. -/
def linesOf : List Char → List (List Char)
  | [] => []
  | c :: rest =>
    if c = '\n' then [] :: linesOf rest
    else match linesOf rest with
      | [] => [[c]]
      | line :: more => (c :: line) :: more

def behindSpace (cs : List Char) : List Char := (cs.dropWhile (· ≠ ' ')).drop 1

/-- The event that a line tells of: behind the time, which is two words, stand its tag and the
message. -/
def eventOf? (line : List Char) : Option Event :=
  let tagged := behindSpace (behindSpace line)
  (Level.ofTag? (.ofList (tagged.takeWhile (· ≠ ' ')))).map fun level =>
    ⟨level, .ofList (behindSpace tagged)⟩

def linesOfFile? (file : ByteArray) : Option (List (List Char)) :=
  (String.fromUTF8? file).map fun text => linesOf text.toList

def eventsOfFile? (file : ByteArray) : Option (List Event) :=
  (linesOfFile? file).bind fun found => found.mapM eventOf?

variable {clock : Nat → Moment} {reading : Nat} {events : List Event}

@[simp] theorem length_lines : (lines clock reading events).length = events.length := by
  induction events generalizing reading with
  | nil => rfl
  | cons e rest ih => rw [lines, List.length_cons, ih, List.length_cons]

theorem lines_append (first second : List Event) :
    lines clock reading (first ++ second)
      = lines clock reading first ++ lines clock (reading + first.length) second := by
  induction first generalizing reading with
  | nil => rfl
  | cons e rest ih =>
      rw [List.cons_append, lines, ih, lines, List.cons_append, List.length_cons,
        Nat.add_assoc, Nat.add_comm 1]

/-- Each event has its line, and in it the time at which it was recorded. -/
theorem getElem?_lines (place : Nat) :
    (lines clock reading events)[place]?
      = events[place]?.map fun e => e.line (clock (reading + place)) := by
  induction events generalizing reading place with
  | nil => rfl
  | cons e rest ih =>
      cases place with
      | zero => rfl
      | succ place =>
          rw [lines, List.getElem?_cons_succ, List.getElem?_cons_succ, ih, Nat.add_assoc,
            Nat.add_comm 1]

theorem ended_append (first second : List String) :
    ended (first ++ second) = ended first ++ ended second := by
  rw [ended, List.map_append, String.join_append]
  rfl

theorem toList_ended (lines : List String) :
    (ended lines).toList = lines.flatMap fun line => line.toList ++ ['\n'] := by
  simp [ended, String.toList_join, List.flatMap_map]

/-! ## Splitting at line feeds -/

theorem length_linesOf_append (line rest : List Char) :
    (linesOf (line ++ '\n' :: rest)).length = line.count '\n' + 1 + (linesOf rest).length := by
  induction line with
  | nil =>
      simp [linesOf]
      omega
  | cons c line ih =>
      rw [List.cons_append, linesOf, List.count_cons]
      split
      case isTrue hc =>
        simp only [List.length_cons, ih, hc, beq_self_eq_true, if_true]
        omega
      case isFalse hc =>
        -- There is a line left to begin with `c`: the one that the line feed ends.
        split
        case h_1 hnone =>
          rw [hnone, List.length_nil] at ih
          omega
        case h_2 first more hsome =>
          rw [hsome] at ih
          simp only [List.length_cons, hc, beq_iff_eq, if_false] at ih ⊢
          omega

theorem linesOf_append {line : List Char} (h : '\n' ∉ line) (rest : List Char) :
    linesOf (line ++ '\n' :: rest) = line :: linesOf rest := by
  induction line with
  | nil => simp [linesOf]
  | cons c line ih =>
      rw [List.mem_cons, not_or] at h
      rw [List.cons_append, linesOf, if_neg (Ne.symm h.1), ih h.2]

theorem linesOf_ended {lines : List String} (h : ∀ line ∈ lines, '\n' ∉ line.toList) :
    linesOf (ended lines).toList = lines.map String.toList := by
  rw [toList_ended]
  induction lines with
  | nil => rfl
  | cons line rest ih =>
      rw [List.forall_mem_cons] at h
      rw [List.flatMap_cons, List.append_assoc, List.singleton_append, linesOf_append h.1,
        ih h.2, List.map_cons]

/-- One line for each that was ended, and one more for each line feed within. -/
theorem length_linesOf_ended (lines : List String) :
    (linesOf (ended lines).toList).length
      = lines.length + (lines.flatMap String.toList).count '\n' := by
  rw [toList_ended]
  induction lines with
  | nil => rfl
  | cons line rest ih =>
      rw [List.flatMap_cons, List.append_assoc, List.singleton_append, length_linesOf_append, ih,
        List.flatMap_cons, List.count_append, List.length_cons]
      omega

end RunLog

/-! ## Times and tags -/

namespace Moment

/-- A character of a time, within its date or its time of day. -/
def IsTimeChar (c : Char) : Prop := c.isDigit = true ∨ c = '-' ∨ c = '+' ∨ c = ':'

theorem IsTimeChar.ne {c : Char} (h : IsTimeChar c) : c ≠ ' ' ∧ c ≠ '\n' := by
  rcases h with hdigit | rfl | rfl | rfl
  · constructor <;> rintro rfl <;> cases hdigit
  all_goals decide

theorem isDigit_of_mem_padded {width n : Nat} : ∀ c ∈ padded width n, c.isDigit = true := by
  intro c hc
  unfold padded at hc
  rw [List.mem_append, List.mem_replicate] at hc
  rcases hc with ⟨-, rfl⟩ | hdigit
  · rfl
  · exact Nat.isDigit_of_mem_toDigits (by decide) (by decide) hdigit

theorem isTimeChar_padded {width n : Nat} : ∀ c ∈ padded width n, IsTimeChar c :=
  fun c hc => .inl (isDigit_of_mem_padded c hc)

theorem isTimeChar_yearText {year : Int} : ∀ c ∈ yearText year, IsTimeChar c := by
  intro c hc
  unfold yearText at hc
  split at hc
  · rcases List.mem_cons.mp hc with rfl | hc
    · exact .inr (.inl rfl)
    · exact isTimeChar_padded c hc
  · split at hc
    · rcases List.mem_cons.mp hc with rfl | hc
      · exact .inr (.inr (.inl rfl))
      · exact isTimeChar_padded c hc
    · exact isTimeChar_padded c hc

/-- A time is two words. -/
theorem exists_words_of_lineText (m : Moment) :
    ∃ date time : List Char, m.lineText = date ++ ' ' :: time
      ∧ (∀ c ∈ date, IsTimeChar c) ∧ ∀ c ∈ time, IsTimeChar c := by
  refine ⟨yearText m.year ++ '-' :: padded 2 m.month ++ '-' :: padded 2 m.day,
    padded 2 m.hour ++ ':' :: padded 2 m.minute ++ ':' :: padded 2 m.shownSecond, ?_, ?_, ?_⟩
  · simp [lineText]
  · intro c hc
    simp only [List.mem_append, List.mem_cons] at hc
    rcases hc with (hc | rfl | hc) | rfl | hc
    · exact isTimeChar_yearText c hc
    · exact .inr (.inl rfl)
    · exact isTimeChar_padded c hc
    · exact .inr (.inl rfl)
    · exact isTimeChar_padded c hc
  · intro c hc
    simp only [List.mem_append, List.mem_cons] at hc
    rcases hc with (hc | rfl | hc) | rfl | hc
    · exact isTimeChar_padded c hc
    · exact .inr (.inr (.inr rfl))
    · exact isTimeChar_padded c hc
    · exact .inr (.inr (.inr rfl))
    · exact isTimeChar_padded c hc

end Moment

namespace RunLog

open Moment (exists_words_of_lineText)

theorem toList_line (e : Event) (time : Moment) :
    (e.line time).toList
      = time.lineText ++ ' ' :: (e.level.tag.toList ++ ' ' :: e.message.toList) := by
  simp [Event.line, String.toList_append]

theorem tag_plain (level : Level) : ∀ c ∈ level.tag.toList, c ≠ ' ' ∧ c ≠ '\n' := by
  cases level <;> simp [Level.tag]

theorem ofTag?_tag (level : Level) : Level.ofTag? level.tag = some level := by
  cases level <;> decide

/-- The line feeds of a line are those of the message. -/
theorem count_line (e : Event) (time : Moment) :
    (e.line time).toList.count '\n' = e.message.toList.count '\n' := by
  have htag : e.level.tag.toList.count '\n' = 0 :=
    List.count_eq_zero.mpr fun hmem => (tag_plain e.level _ hmem).2 rfl
  obtain ⟨date, clock, htime, hdate, hclock⟩ := exists_words_of_lineText time
  have hdate' : date.count '\n' = 0 :=
    List.count_eq_zero.mpr fun hmem => (hdate _ hmem).ne.2 rfl
  have hclock' : clock.count '\n' = 0 :=
    List.count_eq_zero.mpr fun hmem => (hclock _ hmem).ne.2 rfl
  rw [toList_line, htime]
  simp [List.count_append, htag, hdate', hclock']

theorem behindSpace_append {word : List Char} (h : ∀ c ∈ word, c ≠ ' ') (rest : List Char) :
    behindSpace (word ++ ' ' :: rest) = rest := by
  unfold behindSpace
  rw [List.dropWhile_append_of_pos (by simpa using h)]
  rfl

/-- Every line tells of its event, even where the message breaks it. -/
theorem eventOf?_line (e : Event) (time : Moment) : eventOf? (e.line time).toList = some e := by
  obtain ⟨date, clock, htime, hdate, hclock⟩ := exists_words_of_lineText time
  have htag : ∀ c ∈ e.level.tag.toList, c ≠ ' ' := fun c hc => (tag_plain e.level c hc).1
  have hbehind : behindSpace (behindSpace (e.line time).toList)
      = e.level.tag.toList ++ ' ' :: e.message.toList := by
    rw [toList_line, htime, List.append_assoc, List.cons_append,
      behindSpace_append fun c hc => (hdate c hc).ne.1,
      behindSpace_append fun c hc => (hclock c hc).ne.1]
  have hword : (e.level.tag.toList ++ ' ' :: e.message.toList).takeWhile (· ≠ ' ')
      = e.level.tag.toList := by
    rw [List.takeWhile_append_of_pos (by simpa using htag)]
    simp
  unfold eventOf?
  rw [hbehind]
  dsimp only
  rw [hword, String.ofList_toList, ofTag?_tag, behindSpace_append htag, String.ofList_toList]
  rfl

variable {clock : Nat → Moment} {reading : Nat} {events : List Event}

theorem mapM_eventOf?_lines :
    ((lines clock reading events).map String.toList).mapM eventOf? = some events := by
  induction events generalizing reading with
  | nil => rfl
  | cons e rest ih =>
      rw [lines, List.map_cons, List.mapM_cons, eventOf?_line, ih]
      rfl

theorem length_of_mapM_eventOf? {found : List (List Char)} (h : found.mapM eventOf? = some events) :
    events.length = found.length := by
  induction found generalizing events with
  | nil =>
      cases h
      rfl
  | cons line rest ih =>
      rw [List.mapM_cons] at h
      obtain ⟨e, -, h⟩ := Option.bind_eq_some_iff.mp h
      obtain ⟨others, hothers, h⟩ := Option.bind_eq_some_iff.mp h
      cases h
      rw [List.length_cons, List.length_cons, ih hothers]

/-! ## Files -/

/-- No message holds a line feed. -/
def OneLine (events : List Event) : Prop := ∀ e ∈ events, '\n' ∉ e.message.toList

/-- How many line feeds the messages hold. -/
def lineFeeds (events : List Event) : Nat :=
  (events.flatMap fun e => e.message.toList).count '\n'

theorem lineFeeds_eq_zero_iff : lineFeeds events = 0 ↔ OneLine events := by
  unfold lineFeeds OneLine
  rw [List.count_eq_zero]
  simp only [List.mem_flatMap, not_exists, not_and]

theorem count_lines :
    ((lines clock reading events).flatMap String.toList).count '\n' = lineFeeds events := by
  unfold lineFeeds
  induction events generalizing reading with
  | nil => rfl
  | cons e rest ih =>
      rw [lines, List.flatMap_cons, List.count_append, count_line, ih, List.flatMap_cons,
        List.count_append]

theorem not_mem_line_of_oneLine (h : OneLine events) :
    ∀ line ∈ lines clock reading events, '\n' ∉ line.toList := by
  induction events generalizing reading with
  | nil => exact fun line hline => absurd hline List.not_mem_nil
  | cons e rest ih =>
      unfold OneLine at h
      rw [List.forall_mem_cons] at h
      rw [lines, List.forall_mem_cons]
      refine ⟨?_, ih h.2⟩
      rw [← List.count_eq_zero, count_line, List.count_eq_zero]
      exact h.1

/-- What can be read off the file of a log. -/
structure IsLog (clock : Nat → Moment) (reading : Nat) (events : List Event) (file : ByteArray) :
    Prop where
  content_eq : file = (ended (lines clock reading events)).toUTF8
  /-- A line for each event, and one more for each line feed in a message. -/
  length_eq : (linesOfFile? file).map List.length = some (events.length + lineFeeds events)
  /-- The lines of the file are those of the events. -/
  lines_iff : linesOfFile? file = some ((lines clock reading events).map String.toList)
    ↔ OneLine events
  /-- There are as many lines as events. -/
  length_iff : (linesOfFile? file).map List.length = some events.length ↔ OneLine events
  /-- The events can be read back, line by line. -/
  events_iff : eventsOfFile? file = some events ↔ OneLine events

theorem linesOfFile?_toUTF8 (text : String) :
    linesOfFile? text.toUTF8 = some (linesOf text.toList) := by
  unfold linesOfFile?
  rw [String.toUTF8_eq_toByteArray, String.fromUTF8?, dif_pos text.isValidUTF8]
  rfl

theorem isLog_ended (clock : Nat → Moment) (reading : Nat) (events : List Event) :
    IsLog clock reading events (ended (lines clock reading events)).toUTF8 := by
  have hlength : (linesOf (ended (lines clock reading events)).toList).length
      = events.length + lineFeeds events := by
    rw [length_linesOf_ended, length_lines, count_lines]
  -- Whatever fits the events has as many lines as there are events.
  have hone : (linesOf (ended (lines clock reading events)).toList).length = events.length
      ↔ OneLine events := by
    rw [hlength, ← lineFeeds_eq_zero_iff]
    omega
  constructor
  case content_eq => rfl
  case length_eq => rw [linesOfFile?_toUTF8, Option.map_some, hlength]
  case lines_iff =>
    rw [linesOfFile?_toUTF8, Option.some.injEq]
    refine ⟨fun h => hone.mp ?_, fun h => linesOf_ended (not_mem_line_of_oneLine h)⟩
    rw [h, List.length_map, length_lines]
  case length_iff => rw [linesOfFile?_toUTF8, Option.map_some, Option.some.injEq, hone]
  case events_iff =>
    unfold eventsOfFile?
    rw [linesOfFile?_toUTF8, Option.bind_some]
    refine ⟨fun h => hone.mp (length_of_mapM_eventOf? h).symm, fun h => ?_⟩
    rw [linesOf_ended (not_mem_line_of_oneLine h), mapM_eventOf?_lines]

end RunLog

/-! ## Worlds -/

/-- What a world gains by events that a run log takes, all of them: their
lines on the console and, if the log has a file, there. -/
structure World.Gains (file : Option Location) (w later : World) (events : List Event) : Prop where
  clock_eq : later.clock = w.clock
  readings_eq : later.readings = w.readings + events.length
  console_eq : later.console = w.console ++ RunLog.ended (RunLog.lines w.clock w.readings events)
  file_eq : ∀ place content, file = some place → w.files.find? place = some (.file content) →
    later.files.find? place = some (.file
      (content ++ (RunLog.ended (RunLog.lines w.clock w.readings events)).toUTF8))

namespace World.Gains

variable {file : Option Location} {w middle later : World} {first second : List Event}

theorem refl (file : Option Location) (w : World) : w.Gains file w [] where
  clock_eq := rfl
  readings_eq := rfl
  console_eq := (String.append_empty).symm
  file_eq place content _ hfind := by
    rw [hfind]
    exact congrArg (some ∘ Entry.file) (ByteArray.append_empty).symm

theorem trans (h : w.Gains file middle first) (hlater : middle.Gains file later second) :
    w.Gains file later (first ++ second) where
  clock_eq := hlater.clock_eq.trans h.clock_eq
  readings_eq := by
    rw [hlater.readings_eq, h.readings_eq, List.length_append, Nat.add_assoc]
  console_eq := by
    rw [hlater.console_eq, h.console_eq, h.clock_eq, h.readings_eq, RunLog.lines_append,
      RunLog.ended_append, String.append_assoc]
  file_eq place content hplace hfind := by
    rw [hlater.file_eq place _ hplace (h.file_eq place content hplace hfind), h.clock_eq,
      h.readings_eq, RunLog.lines_append, RunLog.ended_append]
    simp only [String.toUTF8_eq_toByteArray, String.toByteArray_append, ByteArray.append_assoc]

end World.Gains

namespace RunLog

theorem gains_record {file : Option Location} {e : Event} {w : World}
    (h : (record file e w).1 = .ok ()) : w.Gains file (record file e w).2 [e] := by
  have hline : ended (lines w.clock w.readings [e]) = e.line (w.clock w.readings) ++ "\n" := by
    simp [ended, lines]
  unfold record at h ⊢
  cases file with
  | none => exact ⟨rfl, rfl, by rw [hline]; rfl, nofun⟩
  | some place =>
      dsimp only [World.now, World.print] at h ⊢
      rcases happend : w.files.append place (e.line (w.clock w.readings) ++ "\n").toUTF8 with
        ⟨cause | _, files⟩ <;> rw [happend] at h
      · cases h
      · refine ⟨rfl, rfl, by rw [hline], ?_⟩
        rintro _ content ⟨⟩ hfind
        have hfound := FileSystem.find?_append hfind (congrArg Prod.fst happend)
        rw [happend] at hfound
        rw [hline]
        exact hfound

theorem gains_feed {file : Option Location} {events : List Event} {w : World}
    (h : (sink file).Accepts events w) : w.Gains file ((sink file).feed events w) events := by
  induction events generalizing w with
  | nil => exact .refl file w
  | cons e rest ih => exact (gains_record h.1).trans (ih h.2)

end RunLog

end SurfaceReport
