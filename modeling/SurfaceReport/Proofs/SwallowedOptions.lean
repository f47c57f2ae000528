import SurfaceReport.Proofs.CommandLines

/-!
# Options behind a bare namespace option

The namespace option without a name asks for the list of namespaces, at
the end of the command line as in front of another option. But in front of
another option it takes the option as its name, so that this one has no
effect (`parse_of_swallowed`): diagnostics are not switched on, and a
directory for the log is taken for the file, or refused where a file is
given.

Where the bare option stands at the end, the command line is cut in front
of the other option and in front of the bare one. The rows of segments
between the cuts are what is read behind the swallowed option as well.
-/

namespace SurfaceReport

namespace CommandLine

/-! ## Cutting a command line -/

/-- Segments alone, so that anything may stand behind them. -/
inductive Row : List Bytes → Arguments → Prop where
  | nil : Row [] {}
  | segment {words rest : List Bytes} {a b : Arguments} (hsegment : Segment words a)
      (hrest : Row rest b) (hapart : a.Apart b) : Row (words ++ rest) (a.merge b)

variable {words before behind rest : List Bytes} {word : Bytes} {a b c : Arguments}

theorem Row.asksFor_append (hrow : Row words a) (hrest : AsksFor rest b) (hapart : a.Apart b) :
    AsksFor (words ++ rest) (a.merge b) := by
  induction hrow with
  | nil =>
      rw [Arguments.empty_merge]
      exact hrest
  | segment hsegment _ hbetween ih =>
      obtain ⟨hfirst, hbehind⟩ := Arguments.merge_apart_iff.mp hapart
      rw [List.append_assoc, Arguments.merge_assoc]
      exact .segment hsegment (ih hbehind) (Arguments.apart_merge_iff.mpr ⟨hbetween, hfirst⟩)

theorem Row.asksFor (hrow : Row words a) : AsksFor words a := by
  have h := hrow.asksFor_append (.ending .nothing) Arguments.apart_empty
  rwa [List.append_nil, Arguments.merge_empty] at h

/-- Where a word begins something of its own, or belongs to the one before it. -/
inductive Cut (c : Arguments) (before : List Bytes) (word : Bytes) (behind : List Bytes) : Prop
  | whole {a b : Arguments} (hrow : Row before a) (hasks : AsksFor (word :: behind) b)
      (hapart : a.Apart b) (heq : c = a.merge b)
  | name {name : String} (hname : Utf8.text? word = some name) (hns : c.ns = some name)
  | directory (hword : Word.of word = .plain)
  | file (hbehind : behind = []) (hpath : c.path = some ⟨word⟩)

theorem Arguments.Apart.merge_ns (hapart : a.Apart b) {name : String} (h : b.ns = some name) :
    (a.merge b).ns = some name := by
  have hfree : a.ns = none := by
    have hfilled : b.isFilled .ns = true := by rw [isFilled, h]; rfl
    simpa [isFilled] using hapart.free .ns hfilled
  rw [merge, hfree, h]
  rfl

theorem Arguments.Apart.merge_path (hapart : a.Apart b) {path : Path} (h : b.path = some path) :
    (a.merge b).path = some path := by
  have hfree : a.path = none := by
    have hfilled : b.isFilled .file = true := by rw [isFilled, h]; rfl
    simpa [isFilled] using hapart.free .file hfilled
  rw [merge, hfree, h]
  rfl

theorem Cut.segment (hsegment : Segment words a) (hcut : Cut b before word behind)
    (hapart : a.Apart b) : Cut (a.merge b) (words ++ before) word behind := by
  obtain ⟨hrow, hasks, hbetween, rfl⟩ | ⟨hname, hns⟩ | hword | ⟨hbehind, hpath⟩ := hcut
  · obtain ⟨hfirst, hlast⟩ := Arguments.apart_merge_iff.mp hapart
    exact .whole (.segment hsegment hrow hfirst) hasks
      (Arguments.merge_apart_iff.mpr ⟨hlast, hbetween⟩) Arguments.merge_assoc.symm
  · exact .name hname (hapart.merge_ns hns)
  · exact .directory hword
  · exact .file hbehind (hapart.merge_path hpath)

theorem AsksFor.cut_front (hasks : AsksFor (word :: behind) c) : Cut c [] word behind :=
  .whole .nil hasks Arguments.empty_apart Arguments.empty_merge.symm

theorem Ending.cut {first : Bytes} (hending : Ending (first :: (before ++ word :: behind)) c) :
    Cut c (first :: before) word behind := by
  rcases before with _ | ⟨second, before⟩
  · cases hending with
    | file => exact .file rfl rfl
  · rcases before with _ | ⟨third, before⟩ <;> cases hending

/-- What a segment is made of. -/
theorem Segment.words_cases (hsegment : Segment words a) : (∃ option, words = [option])
    ∨ ∃ option value, words = [option, value] ∧ (Word.of value = .plain
      ∨ ∃ name, Utf8.text? value = some name ∧ a.ns = some name) := by
  cases hsegment with
  | ns _ hname => exact .inr ⟨_, _, rfl, .inr ⟨_, hname, rfl⟩⟩
  | logDirectory _ hword _ => exact .inr ⟨_, _, rfl, .inl hword⟩
  | file | nsJoined | logDirectoryJoined | verbose => exact .inl ⟨_, rfl⟩

theorem AsksFor.cut (hasks : AsksFor (before ++ word :: behind) c) : Cut c before word behind := by
  generalize hwords : before ++ word :: behind = words at hasks
  induction hasks generalizing before with
  | ending hending =>
      rcases before with _ | ⟨first, before⟩
      · subst hwords
        exact (AsksFor.ending hending).cut_front
      · subst hwords
        exact hending.cut
  | @segment _ rest a b hsegment hrest hapart ih =>
      rcases before with _ | ⟨first, before⟩
      · have hfront := AsksFor.segment hsegment hrest hapart
        rw [← hwords] at hfront
        exact hfront.cut_front
      · obtain ⟨option, rfl⟩ | ⟨option, value, rfl, hvalue⟩ := hsegment.words_cases
        · obtain ⟨rfl, hrest⟩ := List.cons.inj hwords
          exact .segment hsegment (ih hrest) hapart
        · obtain ⟨rfl, htail⟩ := List.cons.inj hwords
          rcases before with _ | ⟨second, before⟩
          · obtain ⟨rfl, rfl⟩ := List.cons.inj htail
            obtain hplain | ⟨name, hname, hns⟩ := hvalue
            · exact .directory hplain
            · exact .name hname (by rw [Arguments.merge, hns]; rfl)
          · obtain ⟨rfl, hrest⟩ := List.cons.inj htail
            exact .segment hsegment (ih hrest) hapart

/-! ## The bare option -/

theorem word_ns : Word.of (Utf8.encode "--namespace") = .long (Utf8.encode "namespace") none := by
  decide +kernel

theorem word_logDirectory :
    Word.of (Utf8.encode "--log-dir") = .long (Utf8.encode "log-dir") none := by
  decide +kernel

theorem word_verbose :
    Word.of (Utf8.encode "--verbose") = .long (Utf8.encode "verbose") none := by
  decide +kernel

/-- The bare option at the end is one, and is no name and no file. -/
structure EndsBare (a : Arguments) : Prop where
  ns_eq : ∀ name, a.ns = some name → name = ""
  path_ne : a.path ≠ some (.ofText "--namespace")

theorem EndsBare.of_merge (h : EndsBare (a.merge b)) (hapart : a.Apart b) : EndsBare b where
  ns_eq name hname := h.ns_eq name (hapart.merge_ns hname)
  path_ne hpath := h.path_ne (hapart.merge_path hpath)

theorem AsksFor.cut_bare (hasks : AsksFor (before ++ [Utf8.encode "--namespace"]) c)
    (hbare : EndsBare c) :
    ∃ a, Row before a ∧ a.ns = none ∧ c = a.merge { ns := some "" } := by
  obtain ⟨hrow, hlast, hapart, rfl⟩ | ⟨hname, hns⟩ | hword | ⟨-, hpath⟩ := hasks.cut
  · obtain rfl := hlast.unique (.ending (.ns word_ns))
    exact ⟨_, hrow, Arguments.apart_ns_iff.mp hapart, rfl⟩
  · obtain rfl := hbare.ns_eq _ hns
    rw [Utf8.text?_encode] at hname
    exact absurd (Option.some.inj hname) (by decide)
  · rw [word_ns] at hword
    cases hword
  · exact absurd hpath hbare.path_ne

theorem AsksFor.cut_option {name : Bytes} {value : Option Bytes} {option : String}
    (hasks : AsksFor (before ++ Utf8.encode option :: behind) c)
    (hword : Word.of (Utf8.encode option) = .long name value) (hne : option ≠ "")
    (hbehind : behind ≠ []) (hbare : EndsBare c) :
    ∃ a b, Row before a ∧ AsksFor (Utf8.encode option :: behind) b ∧ a.Apart b
      ∧ c = a.merge b := by
  obtain ⟨hrow, hlast, hapart, heq⟩ | ⟨hname, hns⟩ | hplain | ⟨hnil, -⟩ := hasks.cut
  · exact ⟨_, _, hrow, hlast, hapart, heq⟩
  · rw [Utf8.text?_encode] at hname
    obtain rfl := Option.some.inj hname
    exact absurd (hbare.ns_eq _ hns) hne
  · rw [hword] at hplain
    cases hplain
  · exact absurd hnil hbehind

theorem AsksFor.behind_segment (hsegment : Segment words a) (hasks : AsksFor (words ++ rest) c) :
    ∃ b, AsksFor rest b ∧ a.Apart b ∧ c = a.merge b := by
  obtain ⟨later, hlater, hfinish⟩ :=
    Reading.Stands.start.finish_segment hsegment Arguments.empty_apart
  rw [Arguments.empty_merge] at hlater
  have hread : later.finish rest = .ok c := by
    rw [← hfinish]
    exact parse_eq_ok_iff.mpr hasks
  exact hlater.finish_eq_ok_iff.mp hread

/-! ## Diagnostics -/

theorem AsksFor.cut_verbose (hasks : AsksFor (before ++ Utf8.encode "--verbose"
      :: (behind ++ [Utf8.encode "--namespace"])) c) (hbare : EndsBare c) :
    ∃ a b, Row before a ∧ Row behind b ∧ a.Apart b
      ∧ (a.ns = none ∧ b.ns = none) ∧ (a.verbose = false ∧ b.verbose = false)
      ∧ c = { a.merge b with ns := some "", verbose := true } := by
  obtain ⟨a, d, hrow, hoption, had, rfl⟩ :=
    hasks.cut_option word_verbose (by decide) (by simp) hbare
  obtain ⟨d, hlast, hvd, rfl⟩ := hoption.behind_segment (.verbose (.inl word_verbose))
  obtain ⟨b, hbehind, hbns, rfl⟩ := hlast.cut_bare ((hbare.of_merge had).of_merge hvd)
  simp only [Arguments.apart_merge_iff] at had hvd
  obtain ⟨hav, hab, han⟩ := had
  have hans := Arguments.apart_ns_iff.mp han
  have hbv := Arguments.apart_verbose_iff.mp hvd.1.symm
  refine ⟨a, b, hrow, hbehind, hab, ⟨hans, hbns⟩, ⟨Arguments.apart_verbose_iff.mp hav, hbv⟩, ?_⟩
  simp [Arguments.merge, hans, hbns]

theorem asksFor_swallowed_verbose (hasks : AsksFor (before ++ Utf8.encode "--verbose"
      :: (behind ++ [Utf8.encode "--namespace"])) c) (hbare : EndsBare c) :
    c.verbose = true ∧ AsksFor (before ++ Utf8.encode "--namespace" :: Utf8.encode "--verbose"
      :: behind) { c with ns := some "--verbose", verbose := false } := by
  obtain ⟨a, b, hrow, hbehind, hab, ⟨hans, hbns⟩, ⟨hav, hbv⟩, rfl⟩ := hasks.cut_verbose hbare
  have hswallowed := AsksFor.segment (.ns word_ns (Utf8.text?_encode "--verbose"))
    hbehind.asksFor (Arguments.apart_ns_iff.mpr hbns).symm
  have hwhole := hrow.asksFor_append hswallowed
    (Arguments.apart_merge_iff.mpr ⟨Arguments.apart_ns_iff.mpr hans, hab⟩)
  refine ⟨rfl, ?_⟩
  simpa [Arguments.merge, hav, hans, hbv] using hwhole

/-! ## The directory for the log -/

/-- What stands behind the option for the directory is the directory. -/
theorem AsksFor.behind_logDirectory (hasks : AsksFor (Utf8.encode "--log-dir" :: behind) c) :
    ∃ directory rest, behind = directory :: rest ∧ Word.of directory = .plain
      ∧ directory ≠ [] := by
  have hread : ({} : Reading).finish (Utf8.encode "--log-dir" :: behind) = .ok c :=
    parse_eq_ok_iff.mpr hasks
  rw [Reading.finish_of_next
    (Reading.Stands.start.next_logDirectory_option word_logDirectory)] at hread
  cases behind with
  | nil => cases hread
  | cons directory rest =>
      obtain ⟨hword, hread⟩ := Reading.plain_of_finish rfl hread
      obtain ⟨_, hsettle⟩ :=
        Reading.settle_of_finish hread fun hwaits => hwaits.2.elim nofun nofun
      exact ⟨directory, rest, rfl, hword, (Pending.settle_logDirectory_iff.mp hsettle).1⟩

theorem AsksFor.cut_logDirectory (hasks : AsksFor (before ++ Utf8.encode "--log-dir"
      :: (behind ++ [Utf8.encode "--namespace"])) c) (hbare : EndsBare c) :
    ∃ directory rest a b, behind = directory :: rest ∧ Word.of directory = .plain
      ∧ directory ≠ [] ∧ Row before a ∧ Row rest b ∧ a.Apart b
      ∧ (a.ns = none ∧ b.ns = none) ∧ (a.logDirectory = none ∧ b.logDirectory = none)
      ∧ c = { a.merge b with ns := some "", logDirectory := some ⟨directory⟩ } := by
  obtain ⟨a, d, hrow, hoption, had, rfl⟩ :=
    hasks.cut_option word_logDirectory (by decide) (by simp) hbare
  obtain ⟨_, _, hbehind, hword, hne⟩ := hoption.behind_logDirectory
  rcases behind with _ | ⟨directory, rest⟩
  · -- The directory would be called what the bare option is called.
    obtain ⟨rfl, -⟩ := List.cons.inj hbehind
    rw [word_ns] at hword
    cases hword
  obtain ⟨rfl, rfl⟩ := List.cons.inj hbehind
  obtain ⟨d, hlast, hld, rfl⟩ :=
    hoption.behind_segment (.logDirectory word_logDirectory hword hne)
  obtain ⟨b, hbehind, hbns, rfl⟩ := hlast.cut_bare ((hbare.of_merge had).of_merge hld)
  simp only [Arguments.apart_merge_iff] at had hld
  obtain ⟨hal, hab, han⟩ := had
  have hans := Arguments.apart_ns_iff.mp han
  have hbl := Arguments.apart_logDirectory_iff.mp hld.1.symm
  refine ⟨directory, rest, a, b, rfl, hword, hne, hrow, hbehind, hab, ⟨hans, hbns⟩,
    ⟨Arguments.apart_logDirectory_iff.mp hal, hbl⟩, ?_⟩
  simp [Arguments.merge, hans, hbns, Arguments.apart_logDirectory_iff.mp hal]

/-- The directory becomes the file. -/
theorem asksFor_swallowed_logDirectory (hasks : AsksFor (before ++ Utf8.encode "--log-dir"
      :: (behind ++ [Utf8.encode "--namespace"])) c) (hbare : EndsBare c) (hpath : c.path = none) :
    AsksFor (before ++ Utf8.encode "--namespace" :: Utf8.encode "--log-dir" :: behind)
      { c with path := c.logDirectory, ns := some "--log-dir", logDirectory := none } := by
  obtain ⟨directory, rest, a, b, rfl, hword, hne, hrow, hbehind, hab, ⟨hans, hbns⟩, ⟨hal, hbl⟩,
    rfl⟩ := hasks.cut_logDirectory hbare
  obtain ⟨hapath, hbpath⟩ : a.path = none ∧ b.path = none := by
    simpa [Arguments.merge, Option.or_eq_none_iff] using hpath
  have hfile := AsksFor.segment (.file hword hne) hbehind.asksFor
    (Arguments.apart_file_iff.mpr hbpath).symm
  have hswallowed := AsksFor.segment (.ns word_ns (Utf8.text?_encode "--log-dir")) hfile
    (Arguments.apart_merge_iff.mpr ⟨Arguments.apart_file_iff.mpr rfl,
      (Arguments.apart_ns_iff.mpr hbns).symm⟩)
  have hwhole := hrow.asksFor_append hswallowed
    (Arguments.apart_merge_iff.mpr ⟨Arguments.apart_ns_iff.mpr hans,
      Arguments.apart_merge_iff.mpr ⟨Arguments.apart_file_iff.mpr hapath, hab⟩⟩)
  simpa [Arguments.merge, hal, hans, hbns, hbl, hapath, hbpath] using hwhole

/-! ## A second file -/

theorem finish_of_second_file {r : Reading} (h : r.Stands a) (hfile : a.path.isSome = true)
    (hword : Word.of word = .plain) :
    r.finish (word :: rest) = .error (.misuse (.unknownArgument (Utf8.shown word))) := by
  rw [Reading.finish, h.next_eq, hword]
  dsimp only
  rw [Reading.plainArgument, h.fileGiven_eq, if_pos hfile]
  rfl

theorem Arguments.Apart.withoutFile (h : a.Apart b) : a.Apart { b with path := none } := by
  intro slot hslot
  cases slot with
  | file => rfl
  | ns | logDirectory | verbose | help | version => exact h _ hslot

theorem Row.finish_of_second_file {r : Reading} (hrow : Row words b) (h : r.Stands a)
    (hfile : a.path.isSome = true) (hb : b.path.isSome = true)
    (hapart : a.Apart { b with path := none }) :
    ∃ shown, r.finish words = .error (.misuse (.unknownArgument shown)) := by
  induction hrow generalizing r a with
  | nil => cases hb
  | @segment words behind d e hsegment hrow hde ih =>
      cases hpath : d.path with
      | some path =>
          cases hsegment with
          | file hword => exact ⟨_, CommandLine.finish_of_second_file h hfile hword⟩
          | ns | nsJoined | logDirectory | logDirectoryJoined | verbose => cases hpath
      | none =>
          have hmerge : ({ d.merge e with path := none } : Arguments)
              = d.merge { e with path := none } := by
            simp [Arguments.merge, hpath]
          rw [hmerge, Arguments.apart_merge_iff] at hapart
          obtain ⟨later, hlater, hfinish⟩ := h.finish_segment hsegment hapart.1
          rw [Arguments.merge, hpath, Option.none_or] at hb
          rw [hfinish]
          refine ih hlater ?_ hb (Arguments.merge_apart_iff.mpr ⟨hapart.2, hde.withoutFile⟩)
          simp [Arguments.merge, hfile]

theorem Row.finish_append {r : Reading} (hrow : Row words b) (h : r.Stands a)
    (hapart : a.Apart b) : ∃ later : Reading, later.Stands (a.merge b)
      ∧ ∀ rest, r.finish (words ++ rest) = later.finish rest := by
  induction hrow generalizing r a with
  | nil =>
      refine ⟨r, ?_, fun rest => rfl⟩
      rwa [Arguments.merge_empty]
  | segment hsegment _ hrest ih =>
      obtain ⟨hfirst, hbehind⟩ := Arguments.apart_merge_iff.mp hapart
      obtain ⟨next, hnext, hfinish⟩ := h.finish_segment hsegment hfirst
      obtain ⟨later, hlater, hread⟩ :=
        ih hnext (Arguments.merge_apart_iff.mpr ⟨hbehind, hrest⟩)
      rw [Arguments.merge_assoc] at hlater
      refine ⟨later, hlater, fun rest => ?_⟩
      rw [List.append_assoc, hfinish, hread]

/-- The directory is refused, or the file behind it is. -/
theorem parse_refuses_swallowed_logDirectory (hasks : AsksFor (before ++ Utf8.encode "--log-dir"
      :: (behind ++ [Utf8.encode "--namespace"])) c) (hbare : EndsBare c) (hpath : c.path ≠ none) :
    ∃ shown, parse (before ++ Utf8.encode "--namespace" :: Utf8.encode "--log-dir" :: behind)
      = .error (.misuse (.unknownArgument shown)) := by
  obtain ⟨directory, rest, a, b, rfl, hword, hne, hrow, hbehind, hab, ⟨hans, hbns⟩, -, rfl⟩ :=
    hasks.cut_logDirectory hbare
  -- Up to the swallowed option everything is taken.
  obtain ⟨r, hr, hbefore⟩ := hrow.finish_append Reading.Stands.start Arguments.empty_apart
  rw [Arguments.empty_merge] at hr
  obtain ⟨r, hr, hswallowed⟩ := hr.finish_segment (.ns word_ns (Utf8.text?_encode "--log-dir"))
    (Arguments.apart_ns_iff.mpr hans)
  have hread : parse (before ++ Utf8.encode "--namespace" :: Utf8.encode "--log-dir"
      :: directory :: rest) = r.finish (directory :: rest) :=
    (hbefore _).trans (hswallowed _)
  rw [hread]
  cases hapath : a.path with
  | some path =>
      have hgiven : (a.merge { ns := some "--log-dir" }).path.isSome = true := by
        simp [Arguments.merge, hapath]
      exact ⟨_, finish_of_second_file hr hgiven hword⟩
  | none =>
      have hbpath : b.path.isSome = true := by
        rw [Option.isSome_iff_ne_none]
        simpa [Arguments.merge, hapath] using hpath
      have hfree : (a.merge { ns := some "--log-dir" }).path = none := by
        simp [Arguments.merge, hapath]
      obtain ⟨r, hr, hfile⟩ :=
        hr.finish_segment (.file hword hne) (Arguments.apart_file_iff.mpr hfree)
      have hrest : ((a.merge { ns := some "--log-dir" }).merge
          { path := some ⟨directory⟩ }).Apart { b with path := none } := by
        simp only [Arguments.merge_apart_iff]
        exact ⟨⟨hab.withoutFile, (Arguments.apart_ns_iff.mpr hbns).symm.withoutFile⟩,
          (Arguments.apart_file_iff.mpr rfl).symm⟩
      obtain ⟨shown, hrefused⟩ :=
        hbehind.finish_of_second_file hr (by simp [Arguments.merge]) hbpath hrest
      exact ⟨shown, (hfile rest).trans hrefused⟩

/-! ## Both options -/

instance decidableEqAnswer : DecidableEq (Except Stop Arguments)
  | .ok a, .ok b => decidable_of_iff (a = b) ⟨congrArg _, Except.ok.inj⟩
  | .error a, .error b => decidable_of_iff (a = b) ⟨congrArg _, Except.error.inj⟩
  | .ok _, .error _ | .error _, .ok _ => isFalse nofun

/-- **An option behind a bare namespace option is swallowed.** What is asked for where the bare
option stands at the end, and is neither a name nor the file there, is asked for without the other
option where it stands in front of that one. -/
theorem parse_of_swallowed {option : String}
    (htaken : parse (before ++ Utf8.encode option :: (behind ++ [Utf8.encode "--namespace"]))
      = .ok a) (hns : a.ns = some "") (hpath : a.path ≠ some (.ofText "--namespace")) :
    let answer := parse (before ++ Utf8.encode "--namespace" :: Utf8.encode option :: behind)
    (option = "--verbose" → a.verbose = true
      ∧ answer = .ok { a with ns := some option, verbose := false }
      ∧ { a with ns := some option, verbose := false }.config? = a.config?)
    ∧ (option = "--log-dir" → a.logDirectory ≠ none
      ∧ (a.path = none → answer
          = .ok { a with path := a.logDirectory, ns := some option, logDirectory := none })
      ∧ (a.path ≠ none → ∃ shown, answer = .error (.misuse (.unknownArgument shown)))) := by
  intro answer
  have hbare : EndsBare a := ⟨fun name hname => Option.some.inj (hname.symm.trans hns), hpath⟩
  rw [parse_eq_ok_iff] at htaken
  constructor
  · rintro rfl
    obtain ⟨hverbose, hasks⟩ := asksFor_swallowed_verbose htaken hbare
    refine ⟨hverbose, parse_eq_ok_iff.mpr hasks, ?_⟩
    have hdiscover : NamespaceChoice.ofArgument (some "--verbose") = .ofArgument (some "") := by
      decide +kernel
    rw [Arguments.config?, Arguments.config?, hns, hdiscover]
  · rintro rfl
    refine ⟨?_, fun hfree => ?_, parse_refuses_swallowed_logDirectory htaken hbare⟩
    · obtain ⟨directory, rest, b, d, -, -, -, -, -, -, -, -, rfl⟩ := htaken.cut_logDirectory hbare
      exact nofun
    · exact parse_eq_ok_iff.mpr (asksFor_swallowed_logDirectory htaken hbare hfree)

/-- The directory for the log of a game is refused. -/
theorem parse_of_swallowed_behind_game :
    let game := Utf8.encode "Game.dll"
    let logDirectory := Utf8.encode "--log-dir"
    let logs := Utf8.encode "logs"
    let bare := Utf8.encode "--namespace"
    parse ([game] ++ logDirectory :: ([logs] ++ [bare]))
        = .ok ⟨some (.ofText "Game.dll"), some "", some (.ofText "logs"), false⟩
      ∧ ∃ shown, parse ([game] ++ bare :: logDirectory :: [logs])
        = .error (.misuse (.unknownArgument shown)) := by
  intro game logDirectory logs bare
  have htaken : parse ([game] ++ logDirectory :: ([logs] ++ [bare]))
      = .ok ⟨some (.ofText "Game.dll"), some "", some (.ofText "logs"), false⟩ := by
    decide +kernel
  have hfile : some (Path.ofText "Game.dll") ≠ some (.ofText "--namespace") := by decide +kernel
  exact ⟨htaken, ((parse_of_swallowed htaken rfl hfile).2 rfl).2.2 nofun⟩

/-- Diagnostics are lost, and a directory is refused where the file is given. -/
theorem bare_ns_costs_options :
    let read (words : List String) := parse (words.map Utf8.encode)
    read ["Game.dll", "--verbose", "--namespace"]
        = .ok ⟨some (.ofText "Game.dll"), some "", none, true⟩
      ∧ read ["Game.dll", "--namespace", "--verbose"]
        = .ok ⟨some (.ofText "Game.dll"), some "--verbose", none, false⟩
      ∧ read ["Game.dll", "--log-dir", "logs", "--namespace"]
        = .ok ⟨some (.ofText "Game.dll"), some "", some (.ofText "logs"), false⟩
      ∧ read ["Game.dll", "--namespace", "--log-dir", "logs"]
        = .error (.misuse (.unknownArgument "logs")) := by
  decide +kernel

end CommandLine

end SurfaceReport
