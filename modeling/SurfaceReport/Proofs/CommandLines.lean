import SurfaceReport.Proofs.ArgumentOrder

/-!
# Which command lines are taken

A command line that is taken is a row of segments for different places,
each one word or two, and an ending (`AsksFor`). What it asks for is what
its segments ask for, together (`parse_eq_ok_iff`).

A reading may have something pending that the words before it asked for.
So the grammar is compared with the reading from where that would be
settled (`Reading.Stands`), and what is behind there is merged with what
was asked for before.
-/

namespace SurfaceReport

namespace CommandLine

/-! ## Asking for more -/

namespace Arguments

/-- They are for different places. -/
def Apart (a b : Arguments) : Prop := ∀ slot, a.isFilled slot = true → b.isFilled slot = false

/-- What both ask for. -/
def merge (a b : Arguments) : Arguments where
  path := a.path.or b.path
  ns := a.ns.or b.ns
  logDirectory := a.logDirectory.or b.logDirectory
  verbose := a.verbose || b.verbose

variable {a b c : Arguments}

theorem isFilled_merge (slot : Slot) :
    (a.merge b).isFilled slot = (a.isFilled slot || b.isFilled slot) := by
  cases slot <;> simp [isFilled, merge]

theorem apart_merge_iff : a.Apart (b.merge c) ↔ a.Apart b ∧ a.Apart c := by
  simp only [Apart, isFilled_merge, Bool.or_eq_false_iff]
  exact ⟨fun h => ⟨fun slot hslot => (h slot hslot).1, fun slot hslot => (h slot hslot).2⟩,
    fun h slot hslot => ⟨h.1 slot hslot, h.2 slot hslot⟩⟩

theorem merge_apart_iff : (a.merge b).Apart c ↔ a.Apart c ∧ b.Apart c := by
  simp only [Apart, isFilled_merge, Bool.or_eq_true]
  exact ⟨fun h => ⟨fun slot hslot => h slot (.inl hslot), fun slot hslot => h slot (.inr hslot)⟩,
    fun h slot hslot => hslot.elim (h.1 slot) (h.2 slot)⟩

theorem merge_assoc : (a.merge b).merge c = a.merge (b.merge c) := by
  simp only [merge, Option.or_assoc, Bool.or_assoc]

@[simp] theorem merge_empty : a.merge {} = a := by
  simp [merge]

@[simp] theorem empty_merge : ({} : Arguments).merge a = a := by
  simp [merge]

theorem apart_empty : a.Apart {} := by
  intro slot _
  cases slot <;> rfl

theorem empty_apart : ({} : Arguments).Apart a := by
  intro slot hslot
  cases slot <;> cases hslot

theorem Apart.free (h : a.Apart b) (slot : Slot) (hb : b.isFilled slot = true) :
    a.isFilled slot = false := by
  refine eq_false_of_ne_true fun ha => ?_
  exact absurd hb (ne_true_of_eq_false (h slot ha))

theorem Apart.symm (h : a.Apart b) : b.Apart a := h.free

/-- Only the one place that is asked for must be free. -/
theorem apart_iff_of_single (slot : Slot)
    (hb : ∀ other, b.isFilled other = true ↔ other = slot) :
    a.Apart b ↔ a.isFilled slot = false := by
  constructor
  · intro h
    exact h.free slot ((hb slot).mpr rfl)
  · intro h other hother
    refine eq_false_of_ne_true fun hfilled => ?_
    rw [(hb other).mp hfilled, h] at hother
    cases hother

theorem apart_file_iff {path : Path} : a.Apart { path := some path } ↔ a.path = none := by
  rw [apart_iff_of_single .file fun other => by cases other <;> simp [isFilled]]
  exact Option.isSome_eq_false_iff.trans Option.isNone_iff_eq_none

theorem apart_ns_iff {name : String} : a.Apart { ns := some name } ↔ a.ns = none := by
  rw [apart_iff_of_single .ns fun other => by cases other <;> simp [isFilled]]
  exact Option.isSome_eq_false_iff.trans Option.isNone_iff_eq_none

theorem apart_logDirectory_iff {directory : Path} :
    a.Apart { logDirectory := some directory } ↔ a.logDirectory = none := by
  rw [apart_iff_of_single .logDirectory fun other => by cases other <;> simp [isFilled]]
  exact Option.isSome_eq_false_iff.trans Option.isNone_iff_eq_none

theorem apart_verbose_iff : a.Apart { verbose := true } ↔ a.verbose = false :=
  apart_iff_of_single .verbose fun other => by cases other <;> simp [isFilled]

end Arguments

namespace Pending

variable {a b : Arguments} {value : Bytes}

theorem settle_file_iff : (file value).settle a = .ok b
    ↔ value ≠ [] ∧ a.Apart { path := some ⟨value⟩ } ∧ b = a.merge { path := some ⟨value⟩ } := by
  rw [Arguments.apart_file_iff]
  obtain ⟨_ | path, ns, directory, verbose⟩ := a
  · by_cases hvalue : value = [] <;> simp [settle, Arguments.merge, hvalue, eq_comm]
  · simp [settle]

theorem settle_ns_iff {value : Option Bytes} : (ns value).settle a = .ok b
    ↔ ∃ name, Utf8.text? (value.getD []) = some name
      ∧ a.Apart { ns := some name } ∧ b = a.merge { ns := some name } := by
  simp only [Arguments.apart_ns_iff]
  obtain ⟨path, _ | ns, directory, verbose⟩ := a
  · cases hname : Utf8.text? (value.getD []) <;>
      simp [settle, Arguments.merge, hname, eq_comm]
  · simp [settle]

theorem settle_logDirectory_iff : (logDirectory (some value)).settle a = .ok b
    ↔ value ≠ [] ∧ a.Apart { logDirectory := some ⟨value⟩ }
      ∧ b = a.merge { logDirectory := some ⟨value⟩ } := by
  rw [Arguments.apart_logDirectory_iff]
  obtain ⟨path, ns, _ | directory, verbose⟩ := a
  · by_cases hvalue : value = [] <;> simp [settle, Arguments.merge, hvalue, eq_comm]
  · simp [settle]

end Pending

/-! ## The grammar -/

/-- What an argument looks like where no option waits for its value. -/
inductive Word where
  /-- What ends the options. -/
  | dashes
  | long (name : Bytes) (value : Option Bytes)
  | short (letter : UInt8) (letters : Bytes)
  | plain
  deriving DecidableEq

def Word.of : Bytes → Word
  | a :: b :: rest =>
    if a = Reading.dash ∧ b = Reading.dash then
      if rest = [] then dashes else long (Reading.splitValue rest).1 (Reading.splitValue rest).2
    else if a = Reading.dash then short b rest
    else plain
  | _ => plain

/-- Words that ask for one thing. -/
inductive Segment : List Bytes → Arguments → Prop where
  | file {word : Bytes} (hword : Word.of word = .plain) (hne : word ≠ []) :
      Segment [word] { path := some ⟨word⟩ }
  | ns {option word : Bytes} {name : String}
      (hoption : Word.of option = .long (Utf8.encode "namespace") none)
      (hname : Utf8.text? word = some name) : Segment [option, word] { ns := some name }
  | nsJoined {option word : Bytes} {name : String}
      (hoption : Word.of option = .long (Utf8.encode "namespace") (some word))
      (hname : Utf8.text? word = some name) : Segment [option] { ns := some name }
  | logDirectory {option word : Bytes}
      (hoption : Word.of option = .long (Utf8.encode "log-dir") none)
      (hword : Word.of word = .plain) (hne : word ≠ []) :
      Segment [option, word] { logDirectory := some ⟨word⟩ }
  | logDirectoryJoined {option word : Bytes}
      (hoption : Word.of option = .long (Utf8.encode "log-dir") (some word)) (hne : word ≠ []) :
      Segment [option] { logDirectory := some ⟨word⟩ }
  | verbose {option : Bytes} (hoption : Word.of option = .long (Utf8.encode "verbose") none
      ∨ Word.of option = .short 'v'.toUInt8 []) : Segment [option] { verbose := true }

theorem Segment.length_pos {words : List Bytes} {a : Arguments} (h : Segment words a) :
    0 < words.length := by
  cases h <;> exact Nat.succ_pos _

/-- Words that may stand behind all segments. -/
inductive Ending : List Bytes → Arguments → Prop where
  | nothing : Ending [] {}
  | ns {option : Bytes} (hoption : Word.of option = .long (Utf8.encode "namespace") none) :
      Ending [option] { ns := some "" }
  | dashes {dashes : Bytes} (hdashes : Word.of dashes = .dashes) : Ending [dashes] {}
  | file {dashes word : Bytes} (hdashes : Word.of dashes = .dashes) (hne : word ≠ []) :
      Ending [dashes, word] { path := some ⟨word⟩ }

/-- What a command line asks for, each place at most once. -/
inductive AsksFor : List Bytes → Arguments → Prop where
  | ending {words : List Bytes} {a : Arguments} (hending : Ending words a) : AsksFor words a
  | segment {words rest : List Bytes} {a b : Arguments} (hsegment : Segment words a)
      (hrest : AsksFor rest b) (hapart : a.Apart b) : AsksFor (words ++ rest) (a.merge b)

/-! ## Steps of a reading -/

theorem bind_eq_ok_iff {α β : Type} {x : Except Stop α} {f : α → Except Stop β} {b : β} :
    x >>= f = .ok b ↔ ∃ a, x = .ok a ∧ f a = .ok b := by
  cases x with
  | error => exact ⟨nofun, nofun⟩
  | ok a => simp [bind, Except.bind]

namespace Reading

variable {r later : Reading} {a b : Arguments} {word : Bytes} {words : List Bytes}

theorem next_eq (r : Reading) (word : Bytes) : r.next word
    = if r.optionsEnded then r.plainArgument word
      else if r.pending = .ns none then .ok { r with pending := .ns (some word) }
      else match Word.of word with
        | .dashes => .ok { r with optionsEnded := true }
        | .long name value => r.longOption name value
        | .short letter letters => r.shortOptions (letter :: letters)
        | .plain => r.otherArgument word := by
  unfold next Word.of
  split
  · rfl
  split
  · rfl
  rcases word with _ | ⟨first, _ | ⟨second, rest⟩⟩
  · rfl
  · rfl
  · dsimp only
    by_cases hdashes : first = dash ∧ second = dash
    · rw [if_pos hdashes, if_pos hdashes]
      by_cases hrest : rest = []
      · rw [if_pos hrest, if_pos hrest]
      · rw [if_neg hrest, if_neg hrest]
    · rw [if_neg hdashes, if_neg hdashes]
      by_cases hdash : first = dash
      · rw [if_pos hdash, if_pos hdash]
      · rw [if_neg hdash, if_neg hdash]

theorem finish_cons_iff : r.finish (word :: words) = .ok a
    ↔ ∃ later, r.next word = .ok later ∧ later.finish words = .ok a :=
  bind_eq_ok_iff

theorem expect_eq_ok_iff {next : Pending} : r.expect next = .ok later
    ↔ ∃ a, r.pending.settle r.arguments = .ok a
      ∧ later = { r with pending := next, arguments := a } := by
  unfold expect
  rw [bind_eq_ok_iff]
  constructor
  · rintro ⟨a, ha, ⟨⟩⟩
    exact ⟨a, ha, rfl⟩
  · rintro ⟨a, ha, rfl⟩
    exact ⟨a, ha, rfl⟩

theorem stop_ne_ok {reason : Stop} : r.stop reason ≠ .ok later := by
  intro h
  obtain ⟨_, -, h⟩ := bind_eq_ok_iff.mp h
  cases h

theorem settleAlso_eq_ok_iff {complete : Pending} : r.settleAlso complete = .ok later
    ↔ ∃ a b, r.pending.settle r.arguments = .ok a ∧ complete.settle a = .ok b
      ∧ later = { r with pending := .nothing, arguments := b } := by
  unfold settleAlso
  simp only [bind_eq_ok_iff, expect_eq_ok_iff]
  constructor
  · rintro ⟨_, ⟨a, ha, rfl⟩, b, hb, rfl⟩
    exact ⟨a, b, ha, hb, rfl⟩
  · rintro ⟨a, b, ha, hb, rfl⟩
    exact ⟨_, ⟨a, ha, rfl⟩, b, hb, rfl⟩

theorem setVerbose_eq_ok_iff : r.setVerbose = .ok later
    ↔ ∃ a, r.pending.settle r.arguments = .ok a ∧ a.verbose = false
      ∧ later = { r with pending := .nothing, arguments := { a with verbose := true } } := by
  unfold setVerbose
  simp only [bind_eq_ok_iff, expect_eq_ok_iff]
  constructor
  · rintro ⟨_, ⟨a, ha, rfl⟩, h⟩
    dsimp only at h
    split at h
    case isTrue => cases h
    case isFalse hfree =>
      cases h
      exact ⟨a, ha, eq_false_of_ne_true hfree, rfl⟩
  · rintro ⟨a, ha, hfree, rfl⟩
    refine ⟨_, ⟨a, ha, rfl⟩, ?_⟩
    dsimp only
    rw [if_neg (ne_true_of_eq_false hfree)]
    rfl

theorem shortOptions_cons_iff {letter : UInt8} {letters : Bytes} :
    r.shortOptions (letter :: letters) = .ok later ↔ letter = 'v'.toUInt8
      ∧ ∃ once, r.setVerbose = .ok once ∧ once.shortOptions letters = .ok later := by
  rw [shortOptions]
  split
  case isTrue hletter => rw [bind_eq_ok_iff, and_iff_right hletter]
  case isFalse hletter =>
    refine ⟨fun h => ?_, fun h => absurd h.1 hletter⟩
    split at h
    case isTrue => exact absurd h stop_ne_ok
    split at h
    case isTrue => exact absurd h stop_ne_ok
    cases h

/-- Of all short options together only one can be taken, and only once. -/
theorem shortOptions_eq_ok_iff {letter : UInt8} {letters : Bytes} :
    r.shortOptions (letter :: letters) = .ok later
      ↔ letter = 'v'.toUInt8 ∧ letters = [] ∧ r.setVerbose = .ok later := by
  rw [shortOptions_cons_iff]
  refine and_congr_right fun _ => ⟨?_, ?_⟩
  · rintro ⟨once, honce, h⟩
    cases letters with
    | nil =>
        cases h
        exact ⟨rfl, honce⟩
    | cons second letters =>
        -- It is set by now.
        obtain ⟨_, twice, htwice, -⟩ := shortOptions_cons_iff.mp h
        obtain ⟨a, -, -, rfl⟩ := setVerbose_eq_ok_iff.mp honce
        obtain ⟨b, hb, hfree, -⟩ := setVerbose_eq_ok_iff.mp htwice
        cases hb
        cases hfree
  · rintro ⟨rfl, h⟩
    exact ⟨later, h, rfl⟩

/-- The long options that may be taken. Neither help nor the version is a way on. -/
inductive Takes (r later : Reading) : Bytes → Option Bytes → Prop where
  | ns (h : r.expect (.ns none) = .ok later) : Takes r later (Utf8.encode "namespace") none
  | nsJoined {value : Bytes} (h : r.settleAlso (.ns (some value)) = .ok later) :
      Takes r later (Utf8.encode "namespace") (some value)
  | logDirectory (h : r.expect (.logDirectory none) = .ok later) :
      Takes r later (Utf8.encode "log-dir") none
  | logDirectoryJoined {value : Bytes} (h : r.settleAlso (.logDirectory (some value)) = .ok later) :
      Takes r later (Utf8.encode "log-dir") (some value)
  | verbose (h : r.setVerbose = .ok later) : Takes r later (Utf8.encode "verbose") none

theorem longOption_eq_ok_iff {name : Bytes} {value : Option Bytes} :
    r.longOption name value = .ok later ↔ Takes r later name value := by
  constructor
  · intro h
    unfold longOption at h
    split at h
    case isTrue hname =>
      subst hname
      cases value with
      | none => exact .ns h
      | some value => exact .nsJoined h
    split at h
    case isTrue hname =>
      subst hname
      cases value with
      | none => exact .logDirectory h
      | some value => exact .logDirectoryJoined h
    split at h
    case isTrue hname =>
      subst hname
      cases value with
      | none => exact .verbose h
      | some value => cases h
    split at h
    case isTrue => cases value <;> first | cases h | exact absurd h stop_ne_ok
    split at h
    case isTrue => cases value <;> first | cases h | exact absurd h stop_ne_ok
    cases h
  · intro h
    unfold longOption
    cases h with
    | ns h => rwa [if_pos rfl, if_neg (by decide)]
    | nsJoined h => rwa [if_pos rfl, if_pos Option.isSome_some]
    | logDirectory h => rwa [if_neg (by decide +kernel), if_pos rfl, if_neg (by decide)]
    | logDirectoryJoined h =>
        rwa [if_neg (by decide +kernel), if_pos rfl, if_pos Option.isSome_some]
    | verbose h => rwa [if_neg (by decide +kernel), if_neg (by decide +kernel), if_pos rfl]

theorem plainArgument_eq_ok_iff : r.plainArgument word = .ok later
    ↔ r.fileGiven = false ∧ ∃ a, r.pending.settle r.arguments = .ok a
      ∧ later = { r with pending := .file word, arguments := a, fileGiven := true } := by
  unfold plainArgument
  split
  case isTrue hgiven => exact ⟨nofun, fun h => absurd hgiven (ne_true_of_eq_false h.1)⟩
  case isFalse hgiven =>
    simp only [bind_eq_ok_iff, expect_eq_ok_iff]
    constructor
    · rintro ⟨_, ⟨a, ha, rfl⟩, ⟨⟩⟩
      exact ⟨eq_false_of_ne_true hgiven, a, ha, rfl⟩
    · rintro ⟨-, a, ha, rfl⟩
      exact ⟨_, ⟨a, ha, rfl⟩, rfl⟩

theorem settle_of_longOption {name : Bytes} {value : Option Bytes}
    (hlong : r.longOption name value = .ok later) :
    ∃ b, r.pending.settle r.arguments = .ok b := by
  cases longOption_eq_ok_iff.mp hlong with
  | ns h | logDirectory h =>
      obtain ⟨b, hb, -⟩ := expect_eq_ok_iff.mp h
      exact ⟨b, hb⟩
  | nsJoined h | logDirectoryJoined h =>
      obtain ⟨b, -, hb, -⟩ := settleAlso_eq_ok_iff.mp h
      exact ⟨b, hb⟩
  | verbose h =>
      obtain ⟨b, hb, -⟩ := setVerbose_eq_ok_iff.mp h
      exact ⟨b, hb⟩

/-- An option waits for its value, and may get it. -/
def Waits (r : Reading) : Prop :=
  r.optionsEnded = false ∧ (r.pending = .ns none ∨ r.pending = .logDirectory none)

/-- What is pending is settled at some time, if nothing is missing. -/
theorem settle_of_finish (h : r.finish words = .ok a) (hwaits : ¬r.Waits) :
    ∃ b, r.pending.settle r.arguments = .ok b := by
  induction words generalizing r with
  | nil => exact ⟨a, h⟩
  | cons word words ih =>
      obtain ⟨later, hnext, h⟩ := finish_cons_iff.mp h
      rw [next_eq] at hnext
      split at hnext
      case isTrue =>
        obtain ⟨-, b, hb, -⟩ := plainArgument_eq_ok_iff.mp hnext
        exact ⟨b, hb⟩
      case isFalse hopen =>
        rw [Waits, and_iff_right (eq_false_of_ne_true hopen), not_or] at hwaits
        rw [if_neg hwaits.1] at hnext
        cases hword : Word.of word with
        | dashes =>
            rw [hword] at hnext
            cases hnext
            have hended : ¬Waits { r with optionsEnded := true } :=
              fun hwaits => Bool.noConfusion hwaits.1
            obtain ⟨b, hb⟩ := ih h hended
            exact ⟨b, hb⟩
        | long name value =>
            rw [hword] at hnext
            exact settle_of_longOption hnext
        | short letter letters =>
            rw [hword] at hnext
            obtain ⟨-, -, h⟩ := shortOptions_eq_ok_iff.mp hnext
            obtain ⟨b, hb, -⟩ := setVerbose_eq_ok_iff.mp h
            exact ⟨b, hb⟩
        | plain =>
            rw [hword] at hnext
            dsimp only at hnext
            rw [otherArgument, if_neg hwaits.2] at hnext
            obtain ⟨-, b, hb, -⟩ := plainArgument_eq_ok_iff.mp hnext
            exact ⟨b, hb⟩

/-- The log directory is not called what an option is called. -/
theorem plain_of_finish (hopen : r.optionsEnded = false)
    (h : ({ r with pending := .logDirectory none } : Reading).finish (word :: words) = .ok a) :
    Word.of word = .plain
      ∧ ({ r with pending := .logDirectory (some word) } : Reading).finish words = .ok a := by
  obtain ⟨later, hnext, h⟩ := finish_cons_iff.mp h
  rw [next_eq, if_neg (ne_true_of_eq_false hopen), if_neg nofun] at hnext
  cases hword : Word.of word with
  | dashes =>
      rw [hword] at hnext
      cases hnext
      obtain ⟨_, hb⟩ := settle_of_finish h fun hwaits => Bool.noConfusion hwaits.1
      cases hb
  | long name value =>
      rw [hword] at hnext
      obtain ⟨_, hb⟩ := settle_of_longOption hnext
      cases hb
  | short letter letters =>
      rw [hword] at hnext
      obtain ⟨-, -, h⟩ := shortOptions_eq_ok_iff.mp hnext
      obtain ⟨_, hb, -⟩ := setVerbose_eq_ok_iff.mp h
      cases hb
  | plain =>
      rw [hword] at hnext
      dsimp only at hnext
      rw [otherArgument, if_pos rfl] at hnext
      cases hnext
      exact ⟨rfl, h⟩

namespace Stands

variable {c e : Arguments}

theorem next_eq (h : r.Stands a) (word : Bytes) : r.next word = match Word.of word with
    | .dashes => .ok { r with optionsEnded := true }
    | .long name value => r.longOption name value
    | .short letter letters => r.shortOptions (letter :: letters)
    | .plain => r.plainArgument word := by
  rw [Reading.next_eq, if_neg (ne_true_of_eq_false h.optionsEnded_eq), if_neg h.ns_ne,
    otherArgument, if_neg h.logDirectory_ne]

/-! ## What the grammar allows is taken -/

theorem next_ns_option (h : r.Stands a)
    (hword : Word.of word = .long (Utf8.encode "namespace") none) :
    r.next word = .ok { r with pending := .ns none, arguments := a } := by
  rw [h.next_eq, hword]
  exact longOption_eq_ok_iff.mpr (.ns (h.expect_eq _))

theorem next_logDirectory_option (h : r.Stands a)
    (hword : Word.of word = .long (Utf8.encode "log-dir") none) :
    r.next word = .ok { r with pending := .logDirectory none, arguments := a } := by
  rw [h.next_eq, hword]
  exact longOption_eq_ok_iff.mpr (.logDirectory (h.expect_eq _))

/-- Where the arguments would come to the same, a file apart, they stand. -/
theorem pend (h : r.Stands a) {p : Pending} {b : Arguments} (hsettle : p.settle b = .ok (a.merge e))
    (hpath : e.path = none) (hns : p ≠ .ns none) (hdirectory : p ≠ .logDirectory none) :
    Stands { r with pending := p, arguments := b } (a.merge e) := by
  refine ⟨hsettle, ?_, h.optionsEnded_eq, hns, hdirectory⟩
  rw [Arguments.merge, hpath, Option.or_none]
  exact h.fileGiven_eq

theorem settled (h : r.Stands a) (hpath : e.path = none) :
    Stands { r with pending := .nothing, arguments := a.merge e } (a.merge e) :=
  h.pend rfl hpath nofun nofun

theorem finish_segment (h : r.Stands a) (hsegment : Segment words e) (hapart : a.Apart e) :
    ∃ later : Reading, later.Stands (a.merge e)
      ∧ ∀ rest, r.finish (words ++ rest) = later.finish rest := by
  cases hsegment with
  | @file word hword hne =>
      have hfree : r.fileGiven = false := h.fileGiven_eq.trans (hapart.free .file rfl)
      have hnext : r.next word
          = .ok { r with pending := .file word, arguments := a, fileGiven := true } := by
        rw [h.next_eq, hword]
        exact plainArgument_eq_ok_iff.mpr ⟨hfree, a, h.settle_eq, rfl⟩
      refine ⟨_, ?_, fun rest => finish_of_next hnext rest⟩
      refine ⟨Pending.settle_file_iff.mpr ⟨hne, hapart, rfl⟩, ?_, h.optionsEnded_eq, by simp, by simp⟩
      simp [Arguments.merge]
  | @ns option word name hoption hname =>
      have hsettle : (Pending.ns (some word)).settle a = .ok (a.merge { ns := some name }) :=
        Pending.settle_ns_iff.mpr ⟨name, hname, hapart, rfl⟩
      have hvalue : ({ r with pending := .ns none, arguments := a } : Reading).next word
          = .ok { r with pending := .ns (some word), arguments := a } := by
        rw [Reading.next_eq, if_neg (ne_true_of_eq_false h.optionsEnded_eq), if_pos rfl]
      refine ⟨_, h.pend hsettle rfl (by simp) (by simp), fun rest => ?_⟩
      exact (finish_of_next (h.next_ns_option hoption) _).trans (finish_of_next hvalue rest)
  | @nsJoined option word name hoption hname =>
      have hsettle : (Pending.ns (some word)).settle a = .ok (a.merge { ns := some name }) :=
        Pending.settle_ns_iff.mpr ⟨name, hname, hapart, rfl⟩
      refine ⟨_, h.settled rfl, fun rest => finish_of_next ?_ rest⟩
      rw [h.next_eq, hoption]
      exact longOption_eq_ok_iff.mpr
        (.nsJoined (settleAlso_eq_ok_iff.mpr ⟨a, _, h.settle_eq, hsettle, rfl⟩))
  | @logDirectory option word hoption hword hne =>
      have hsettle := Pending.settle_logDirectory_iff.mpr ⟨hne, hapart, rfl⟩
      have hvalue : ({ r with pending := .logDirectory none, arguments := a } : Reading).next word
          = .ok { r with pending := .logDirectory (some word), arguments := a } := by
        rw [Reading.next_eq, if_neg (ne_true_of_eq_false h.optionsEnded_eq), if_neg (by simp), hword]
        dsimp only
        rw [otherArgument, if_pos rfl]
      refine ⟨_, h.pend hsettle rfl (by simp) (by simp), fun rest => ?_⟩
      exact (finish_of_next (h.next_logDirectory_option hoption) _).trans
        (finish_of_next hvalue rest)
  | @logDirectoryJoined option word hoption hne =>
      have hsettle := Pending.settle_logDirectory_iff.mpr ⟨hne, hapart, rfl⟩
      refine ⟨_, h.settled rfl, fun rest => finish_of_next ?_ rest⟩
      rw [h.next_eq, hoption]
      exact longOption_eq_ok_iff.mpr
        (.logDirectoryJoined (settleAlso_eq_ok_iff.mpr ⟨a, _, h.settle_eq, hsettle, rfl⟩))
  | @verbose option hoption =>
      have hset : r.setVerbose
          = .ok { r with pending := .nothing, arguments := a.merge { verbose := true } } := by
        rw [h.setVerbose_eq (hapart.free .verbose rfl)]
        simp [Arguments.merge]
      refine ⟨_, h.settled rfl, fun rest => finish_of_next ?_ rest⟩
      rw [h.next_eq]
      obtain hoption | hoption := hoption
      · rw [hoption]
        exact longOption_eq_ok_iff.mpr (.verbose hset)
      · rw [hoption]
        exact shortOptions_eq_ok_iff.mpr ⟨rfl, rfl, hset⟩

theorem finish_ending (h : r.Stands a) (hending : Ending words e) (hapart : a.Apart e) :
    r.finish words = .ok (a.merge e) := by
  cases hending with
  | nothing =>
      rw [Arguments.merge_empty]
      exact h.settle_eq
  | @ns option hoption =>
      rw [finish_of_next (h.next_ns_option hoption)]
      exact Pending.settle_ns_iff.mpr ⟨"", by decide +kernel, hapart, rfl⟩
  | @dashes dashes hdashes =>
      have hnext : r.next dashes = .ok { r with optionsEnded := true } := by
        rw [h.next_eq, hdashes]
      rw [finish_of_next hnext, Arguments.merge_empty]
      exact h.settle_eq
  | @file dashes word hdashes hne =>
      have hnext : r.next dashes = .ok { r with optionsEnded := true } := by
        rw [h.next_eq, hdashes]
      have hfree : r.fileGiven = false := h.fileGiven_eq.trans (hapart.free .file rfl)
      have hfile : ({ r with optionsEnded := true } : Reading).next word = .ok
          { r with pending := .file word, arguments := a, fileGiven := true,
                   optionsEnded := true } := by
        rw [Reading.next_eq, if_pos rfl]
        exact plainArgument_eq_ok_iff.mpr ⟨hfree, a, h.settle_eq, rfl⟩
      rw [finish_of_next hnext, finish_of_next hfile]
      exact Pending.settle_file_iff.mpr ⟨hne, hapart, rfl⟩

theorem finish_of_asksFor (h : r.Stands a) (hasks : AsksFor words b) (hapart : a.Apart b) :
    r.finish words = .ok (a.merge b) := by
  induction hasks generalizing r a with
  | ending hending => exact h.finish_ending hending hapart
  | segment hsegment _ hrest ih =>
      obtain ⟨hfirst, hbehind⟩ := Arguments.apart_merge_iff.mp hapart
      obtain ⟨later, hlater, hfinish⟩ := h.finish_segment hsegment hfirst
      rw [hfinish, ih hlater (Arguments.merge_apart_iff.mpr ⟨hbehind, hrest⟩),
        Arguments.merge_assoc]

/-! ## What is taken is allowed by the grammar -/

/-- An ending, or a segment and what is made of the words behind it. -/
inductive Splits (a c : Arguments) (words : List Bytes) : Prop where
  | ending {e : Arguments} (hending : Ending words e) (hapart : a.Apart e) (heq : c = a.merge e)
  | segment {first rest : List Bytes} {e : Arguments} {later : Reading}
      (hsegment : Segment first e) (hwords : words = first ++ rest) (hapart : a.Apart e)
      (hlater : later.Stands (a.merge e)) (hfinish : later.finish rest = .ok c)

theorem splits_file (h : r.Stands a) (hword : Word.of word = .plain)
    (hnext : r.plainArgument word = .ok later) (hfinish : later.finish words = .ok c) :
    Splits a c (word :: words) := by
  obtain ⟨-, _, ha, rfl⟩ := plainArgument_eq_ok_iff.mp hnext
  cases h.settle_eq.symm.trans ha
  obtain ⟨b, hb⟩ := settle_of_finish hfinish fun hwaits => hwaits.2.elim nofun nofun
  obtain ⟨hne, hapart, rfl⟩ := Pending.settle_file_iff.mp hb
  refine .segment (.file hword hne) rfl hapart ⟨hb, ?_, h.optionsEnded_eq, nofun, nofun⟩ hfinish
  simp [Arguments.merge]

theorem splits_dashes (h : r.Stands a) (hword : Word.of word = .dashes)
    (hfinish : ({ r with optionsEnded := true } : Reading).finish words = .ok c) :
    Splits a c (word :: words) := by
  cases words with
  | nil =>
      cases h.settle_eq.symm.trans hfinish
      exact .ending (.dashes hword) Arguments.apart_empty Arguments.merge_empty.symm
  | cons path words =>
      obtain ⟨later, hnext, hfinish⟩ := finish_cons_iff.mp hfinish
      rw [Reading.next_eq, if_pos rfl] at hnext
      obtain ⟨-, _, ha, rfl⟩ := plainArgument_eq_ok_iff.mp hnext
      cases h.settle_eq.symm.trans ha
      cases words with
      | nil =>
          obtain ⟨hne, hapart, rfl⟩ := Pending.settle_file_iff.mp hfinish
          exact .ending (.file hword hne) hapart rfl
      | cons second words =>
          -- Behind the dashes there is no place for two files.
          obtain ⟨_, hsecond, -⟩ := finish_cons_iff.mp hfinish
          rw [Reading.next_eq, if_pos rfl] at hsecond
          cases (plainArgument_eq_ok_iff.mp hsecond).1

theorem splits_ns (h : r.Stands a) (hword : Word.of word = .long (Utf8.encode "namespace") none)
    (hfinish : ({ r with pending := .ns none, arguments := a } : Reading).finish words = .ok c) :
    Splits a c (word :: words) := by
  cases words with
  | nil =>
      obtain ⟨name, hname, hapart, rfl⟩ := Pending.settle_ns_iff.mp hfinish
      have hempty : some "" = some name := hname
      cases hempty
      exact .ending (.ns hword) hapart rfl
  | cons value words =>
      obtain ⟨_, hnext, hfinish⟩ := finish_cons_iff.mp hfinish
      rw [Reading.next_eq, if_neg (ne_true_of_eq_false h.optionsEnded_eq), if_pos rfl] at hnext
      cases hnext
      obtain ⟨b, hb⟩ := settle_of_finish hfinish fun hwaits => hwaits.2.elim nofun nofun
      obtain ⟨name, hname, hapart, rfl⟩ := Pending.settle_ns_iff.mp hb
      exact .segment (.ns hword hname) rfl hapart (h.pend hb rfl nofun nofun) hfinish

theorem splits_logDirectory (h : r.Stands a)
    (hword : Word.of word = .long (Utf8.encode "log-dir") none)
    (hfinish : ({ r with pending := .logDirectory none, arguments := a } : Reading).finish words
      = .ok c) : Splits a c (word :: words) := by
  cases words with
  | nil => cases hfinish
  | cons value words =>
      obtain ⟨hplain, hfinish⟩ :=
        plain_of_finish (r := { r with arguments := a }) h.optionsEnded_eq hfinish
      obtain ⟨b, hb⟩ := settle_of_finish hfinish fun hwaits => hwaits.2.elim nofun nofun
      obtain ⟨hne, hapart, rfl⟩ := Pending.settle_logDirectory_iff.mp hb
      exact .segment (.logDirectory hword hplain hne) rfl hapart (h.pend hb rfl nofun nofun) hfinish

theorem splits_verbose (h : r.Stands a)
    (hword : Word.of word = .long (Utf8.encode "verbose") none
      ∨ Word.of word = .short 'v'.toUInt8 [])
    (hset : r.setVerbose = .ok later) (hfinish : later.finish words = .ok c) :
    Splits a c (word :: words) := by
  obtain ⟨_, ha, hfree, rfl⟩ := setVerbose_eq_ok_iff.mp hset
  cases h.settle_eq.symm.trans ha
  have hverbose : ({ a with verbose := true } : Arguments) = a.merge { verbose := true } := by
    simp [Arguments.merge]
  rw [hverbose] at hfinish
  exact .segment (.verbose hword) rfl (Arguments.apart_verbose_iff.mpr hfree)
    (h.settled rfl) hfinish

theorem splits_long (h : r.Stands a) {name : Bytes} {value : Option Bytes}
    (hword : Word.of word = .long name value) (hlong : r.longOption name value = .ok later)
    (hfinish : later.finish words = .ok c) : Splits a c (word :: words) := by
  cases longOption_eq_ok_iff.mp hlong with
  | ns hnext =>
      cases (h.expect_eq _).symm.trans hnext
      exact h.splits_ns hword hfinish
  | nsJoined hnext =>
      obtain ⟨_, b, ha, hb, rfl⟩ := settleAlso_eq_ok_iff.mp hnext
      cases h.settle_eq.symm.trans ha
      obtain ⟨name, hname, hapart, rfl⟩ := Pending.settle_ns_iff.mp hb
      exact .segment (.nsJoined hword hname) rfl hapart (h.settled rfl) hfinish
  | logDirectory hnext =>
      cases (h.expect_eq _).symm.trans hnext
      exact h.splits_logDirectory hword hfinish
  | logDirectoryJoined hnext =>
      obtain ⟨_, b, ha, hb, rfl⟩ := settleAlso_eq_ok_iff.mp hnext
      cases h.settle_eq.symm.trans ha
      obtain ⟨hne, hapart, rfl⟩ := Pending.settle_logDirectory_iff.mp hb
      exact .segment (.logDirectoryJoined hword hne) rfl hapart (h.settled rfl) hfinish
  | verbose hnext => exact h.splits_verbose (.inl hword) hnext hfinish

theorem splits (h : r.Stands a) (hfinish : r.finish words = .ok c) : Splits a c words := by
  cases words with
  | nil =>
      cases h.settle_eq.symm.trans hfinish
      exact .ending .nothing Arguments.apart_empty Arguments.merge_empty.symm
  | cons word words =>
      obtain ⟨later, hnext, hfinish⟩ := finish_cons_iff.mp hfinish
      rw [h.next_eq] at hnext
      cases hword : Word.of word with
      | dashes =>
          rw [hword] at hnext
          cases hnext
          exact h.splits_dashes hword hfinish
      | long name value =>
          rw [hword] at hnext
          exact h.splits_long hword hnext hfinish
      | short letter letters =>
          rw [hword] at hnext
          obtain ⟨rfl, rfl, hset⟩ := shortOptions_eq_ok_iff.mp hnext
          exact h.splits_verbose (.inr hword) hset hfinish
      | plain =>
          rw [hword] at hnext
          exact h.splits_file hword hnext hfinish

theorem asksFor_of_finish (h : r.Stands a) (hfinish : r.finish words = .ok c) :
    ∃ b, AsksFor words b ∧ a.Apart b ∧ c = a.merge b := by
  -- A segment is one word or two, so the induction is on how many words are left.
  induction hlength : words.length using Nat.strongRecOn generalizing r a words with
  | ind n ih =>
      cases h.splits hfinish with
      | ending hending hapart heq => exact ⟨_, .ending hending, hapart, heq⟩
      | @segment first rest e later hsegment hwords hapart hlater hfinish =>
          have hshorter : rest.length < n := by
            have hpos := hsegment.length_pos
            rw [← hlength, hwords, List.length_append]
            omega
          obtain ⟨b, hrest, hbehind, rfl⟩ := ih rest.length hshorter hlater hfinish rfl
          obtain ⟨hab, heb⟩ := Arguments.merge_apart_iff.mp hbehind
          rw [hwords, Arguments.merge_assoc]
          exact ⟨_, .segment hsegment hrest heb, Arguments.apart_merge_iff.mpr ⟨hapart, hab⟩, rfl⟩

/-- What is read behind some words is what they would be read as by themselves, and is merged with
what was asked for before. -/
theorem finish_eq_ok_iff (h : r.Stands a) :
    r.finish words = .ok c ↔ ∃ b, AsksFor words b ∧ a.Apart b ∧ c = a.merge b := by
  constructor
  · exact h.asksFor_of_finish
  · rintro ⟨b, hasks, hapart, rfl⟩
    exact h.finish_of_asksFor hasks hapart

end Stands

end Reading

/-- **The command lines that are taken, and what they ask for.** -/
theorem parse_eq_ok_iff {words : List Bytes} {a : Arguments} :
    parse words = .ok a ↔ AsksFor words a := by
  rw [parse, Reading.Stands.start.finish_eq_ok_iff]
  constructor
  · rintro ⟨b, hasks, -, rfl⟩
    rwa [Arguments.empty_merge]
  · intro hasks
    exact ⟨a, hasks, Arguments.empty_apart, Arguments.empty_merge.symm⟩

theorem AsksFor.unique {words : List Bytes} {a b : Arguments} (ha : AsksFor words a)
    (hb : AsksFor words b) : a = b :=
  Except.ok.inj ((parse_eq_ok_iff.mpr ha).symm.trans (parse_eq_ok_iff.mpr hb))

end CommandLine

end SurfaceReport
