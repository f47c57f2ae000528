import Mathlib.Data.List.DropRight
import SurfaceReport.Path

/-!
# A name in a directory

What two paths are compared by, the file name of a path and its directory
are all read off its pieces. For comparing and for the file name only the
pieces that say something matter, whatever the path begins with and
whatever stands between them: its `steps` (`components_eq`,
`fileName?_eq_some_iff`).

A *plain* name is one that can only be the name of a file: no separator
is in it, and it neither climbs nor stays. Joined to a directory, however
that is spelled, it is the last step of the path (`steps_join`), so that
a path which is the same has that file name (`fileName?_of_same_join`).
And joined to the directory of a path, it stands in that directory
(`parent?_join`). The directory comes back to the byte because it ends
with a piece that says something, or is nothing but a lead; any other
spelling of it would come back trimmed.
-/

namespace SurfaceReport

namespace Path

/-! ## Pieces -/

theorem split_ne_nil (bytes : Bytes) : split bytes ≠ [] := by
  cases bytes with
  | nil => exact List.cons_ne_nil _ _
  | cons b rest =>
      unfold split
      split
      · exact List.cons_ne_nil _ _
      · split <;> exact List.cons_ne_nil _ _

theorem split_append_separator (front rest : Bytes) :
    split (front ++ separator :: rest) = split front ++ split rest := by
  induction front with
  | nil =>
      show split (separator :: rest) = [] :: split rest
      rw [split, if_pos rfl]
  | cons b front ih =>
      rw [List.cons_append, split, split, ih]
      split
      case isTrue => rfl
      case isFalse =>
        cases hsplit : split front with
        | nil => exact absurd hsplit (split_ne_nil front)
        | cons piece pieces => rfl

theorem split_of_not_mem {piece : Bytes} (h : separator ∉ piece) : split piece = [piece] := by
  induction piece with
  | nil => rfl
  | cons b piece ih =>
      rw [List.mem_cons, not_or] at h
      rw [split, if_neg (Ne.symm h.1), ih h.2]

theorem not_mem_of_mem_split {bytes piece : Bytes} (h : piece ∈ split bytes) :
    separator ∉ piece := by
  induction bytes generalizing piece with
  | nil => simp [List.mem_singleton.mp h]
  | cons b rest ih =>
      unfold split at h
      split at h
      case isTrue =>
        rcases List.mem_cons.mp h with rfl | h
        · exact List.not_mem_nil
        · exact ih h
      case isFalse hb =>
        cases hsplit : split rest with
        | nil => exact absurd hsplit (split_ne_nil rest)
        | cons first pieces =>
            rw [hsplit] at h ih
            rcases List.mem_cons.mp h with rfl | h
            · rw [List.mem_cons, not_or]
              exact ⟨Ne.symm hb, ih (List.mem_cons_self ..)⟩
            · exact ih (List.mem_cons_of_mem _ h)

theorem joined_cons {pieces : List Bytes} (h : pieces ≠ []) (piece : Bytes) :
    joined (piece :: pieces) = piece ++ separator :: joined pieces := by
  cases pieces with
  | nil => exact absurd rfl h
  | cons next pieces => rfl

theorem joined_concat {pieces : List Bytes} (h : pieces ≠ []) (piece : Bytes) :
    joined (pieces ++ [piece]) = joined pieces ++ separator :: piece := by
  induction pieces with
  | nil => exact absurd rfl h
  | cons first pieces ih =>
      cases pieces with
      | nil => rfl
      | cons next pieces =>
          rw [List.cons_append, joined_cons (by simp), joined_cons (by simp), ih (by simp),
            List.append_assoc]
          rfl

theorem getLast?_joined_concat (pieces : List Bytes) {piece : Bytes} (h : piece ≠ []) :
    (joined (pieces ++ [piece])).getLast? = piece.getLast? := by
  by_cases hpieces : pieces = []
  · rw [hpieces]
    rfl
  · rw [joined_concat hpieces, List.getLast?_append_of_ne_nil _ (List.cons_ne_nil _ _),
      ← List.singleton_append, List.getLast?_append_of_ne_nil _ h]

theorem split_joined {pieces : List Bytes} (hne : pieces ≠ [])
    (h : ∀ piece ∈ pieces, separator ∉ piece) : split (joined pieces) = pieces := by
  induction pieces with
  | nil => exact absurd rfl hne
  | cons first pieces ih =>
      rw [List.forall_mem_cons] at h
      by_cases hpieces : pieces = []
      · subst hpieces
        exact split_of_not_mem h.1
      · rw [joined_cons hpieces, split_append_separator, split_of_not_mem h.1, ih hpieces h.2]
        rfl

theorem joined_split (bytes : Bytes) : joined (split bytes) = bytes := by
  induction bytes with
  | nil => rfl
  | cons b rest ih =>
      unfold split
      split
      case isTrue hb => rw [joined_cons (split_ne_nil rest), ih, hb]; rfl
      case isFalse =>
        cases hsplit : split rest with
        | nil => exact absurd hsplit (split_ne_nil rest)
        | cons first pieces =>
            rw [hsplit] at ih
            rw [← ih]
            cases pieces <;> rfl

/-- What stands behind the first piece begins with a separator. -/
theorem exists_of_head?_split {bytes first : Bytes} (h : (split bytes).head? = some first) :
    ∃ rest, bytes = first ++ rest ∧ (rest = [] ∨ rest.head? = some separator) := by
  obtain ⟨pieces, hpieces⟩ := List.head?_eq_some_iff.mp h
  have hbytes := joined_split bytes
  rw [hpieces] at hbytes
  by_cases hnil : pieces = []
  · subst hnil
    exact ⟨[], by rw [← hbytes, List.append_nil]; rfl, .inl rfl⟩
  · exact ⟨separator :: joined pieces, by rw [← hbytes, joined_cons hnil], .inr rfl⟩

/-! ## Pieces that say something -/

theorem significant_ne_nil {piece : Bytes} (h : significant piece = true) : piece ≠ [] := by
  rintro rfl
  cases h

theorem trimmed_concat (pieces : List Bytes) (piece : Bytes) :
    trimmed (pieces ++ [piece])
      = if significant piece then pieces ++ [piece] else trimmed pieces := by
  show List.rdropWhile _ (pieces ++ [piece]) = _
  rw [List.rdropWhile_concat]
  cases significant piece <;> rfl

theorem filter_trimmed (pieces : List Bytes) :
    (trimmed pieces).filter significant = pieces.filter significant := by
  induction pieces using List.reverseRecOn with
  | nil => rfl
  | append_singleton pieces piece ih =>
      rw [trimmed_concat]
      cases hpiece : significant piece with
      | true => rfl
      | false => simp [ih, List.filter_append, hpiece]

theorem getLast?_trimmed (pieces : List Bytes) :
    (trimmed pieces).getLast? = (pieces.filter significant).getLast? := by
  induction pieces using List.reverseRecOn with
  | nil => rfl
  | append_singleton pieces piece ih =>
      rw [trimmed_concat]
      cases hpiece : significant piece with
      | true => simp [List.filter_append, hpiece]
      | false => simp [ih, List.filter_append, hpiece]

theorem trimmed_trimmed (pieces : List Bytes) : trimmed (trimmed pieces) = trimmed pieces :=
  List.rdropWhile_idempotent _ pieces

theorem trimmed_begins (pieces : List Bytes) : trimmed pieces <+: pieces :=
  List.rdropWhile_prefix _ pieces

/-! ## Steps -/

/-- The pieces of a path that say something. -/
def steps (p : Path) : List Bytes := (split p.bytes).filter significant

theorem lead_eq_or (p : Path) : p.lead = [] ∨ p.lead = [separator] ∨ p.lead = [dot] := by
  unfold lead
  split
  · split
    · exact .inr (.inl rfl)
    · split
      · exact .inr (.inr rfl)
      · exact .inl rfl
  · exact .inl rfl

theorem steps_behind_lead (p : Path) :
    (split (p.bytes.drop p.lead.length)).filter significant = p.steps := by
  rcases p with ⟨_ | ⟨b, rest⟩⟩
  · rfl
  · unfold lead steps
    dsimp only
    by_cases hseparator : b = separator
    · subst hseparator
      rw [if_pos rfl, split, if_pos rfl]
      rfl
    · rw [if_neg hseparator]
      by_cases hdot : b = dot ∧ (rest = [] ∨ rest.head? = some separator)
      · rw [if_pos hdot]
        obtain ⟨rfl, rfl | hrest⟩ := hdot
        · rfl
        · obtain ⟨rest, rfl⟩ := List.head?_eq_some_iff.mp hrest
          have hsplit : split (dot :: separator :: rest) = [dot] :: split rest :=
            split_append_separator [dot] rest
          rw [hsplit]
          rfl
      · rw [if_neg hdot]
        rfl

theorem components_eq (p : Path) :
    p.components = (if p.lead = [] then [] else [p.lead]) ++ p.steps := by
  rw [components, pieces, filter_trimmed, steps_behind_lead]

theorem getLast?_pieces (p : Path) : p.pieces.getLast? = p.steps.getLast? := by
  rw [pieces, getLast?_trimmed, steps_behind_lead]

/-- The file name is the last step, unless that one climbs. -/
theorem fileName?_eq_some_iff {p : Path} {name : Bytes} :
    p.fileName? = some name ↔ p.steps.getLast? = some name ∧ name ≠ [dot, dot] := by
  rw [fileName?, getLast?_pieces]
  rcases p.steps.getLast? with _ | piece
  · simp
  · dsimp only
    by_cases hclimbs : piece = [dot, dot]
    · simp [hclimbs, eq_comm]
    · rw [if_neg hclimbs]
      exact ⟨fun h => ⟨h, Option.some.inj h ▸ hclimbs⟩, And.left⟩

theorem mem_steps {p : Path} {piece : Bytes} (h : piece ∈ p.steps) :
    separator ∉ piece ∧ significant piece = true := by
  obtain ⟨hsplit, hmeaningful⟩ := List.mem_filter.mp h
  exact ⟨not_mem_of_mem_split hsplit, hmeaningful⟩

/-! ## Leads -/

/-- Behind the lead, a path goes on with this piece. A piece that a path
without a lead begins with is not taken for one. -/
def Opens (lead first : Bytes) : Prop :=
  lead = [separator] ∨ (lead = [dot] ∧ first = []) ∨ (lead = [] ∧ significant first = true)

theorem lead_cons (b : UInt8) (rest : Bytes) :
    lead ⟨b :: rest⟩ = if b = separator then [separator]
      else if b = dot ∧ (rest = [] ∨ rest.head? = some separator) then [dot] else [] := rfl

/-- What stands behind a separator is no matter of the lead. -/
theorem lead_append_separator {front : Bytes} (h : front ≠ []) (rest : Bytes) :
    lead ⟨front ++ separator :: rest⟩ = lead ⟨front⟩ := by
  obtain ⟨b, front, rfl⟩ := List.exists_cons_of_ne_nil h
  rw [List.cons_append, lead_cons, lead_cons]
  cases front <;> simp

theorem lead_of_opens {front first rest : Bytes} (h : Opens front first)
    (hfirst : (split rest).head? = some first) : lead ⟨front ++ rest⟩ = front := by
  obtain ⟨tail, rfl, htail⟩ := exists_of_head?_split hfirst
  have hwhole := not_mem_of_mem_split (List.mem_of_mem_head? hfirst)
  rcases h with rfl | ⟨rfl, rfl⟩ | ⟨rfl, hmeaningful⟩
  · rw [List.cons_append, lead_cons, if_pos rfl]
  · rw [List.cons_append, lead_cons, if_neg (by decide), if_pos ⟨rfl, htail⟩]
  · rcases first with _ | ⟨b, _ | ⟨c, first⟩⟩
    · cases hmeaningful
    · have hb : b ≠ separator := by simpa [eq_comm] using hwhole
      have hdot : b ≠ dot := by
        rintro rfl
        cases hmeaningful
      rw [List.nil_append, List.cons_append, lead_cons, if_neg hb, if_neg fun h => hdot h.1]
    · rw [List.mem_cons, List.mem_cons, not_or, not_or] at hwhole
      rw [List.nil_append, List.cons_append, lead_cons, if_neg (Ne.symm hwhole.1), if_neg]
      rintro ⟨-, h | h⟩
      · cases h
      · exact hwhole.2.1 (Option.some.inj h).symm

theorem exists_opens {p : Path} (h : p.pieces ≠ []) :
    p.bytes = p.lead ++ p.bytes.drop p.lead.length
      ∧ ∃ first, (split (p.bytes.drop p.lead.length)).head? = some first
        ∧ Opens p.lead first := by
  rcases p with ⟨_ | ⟨b, rest⟩⟩
  · exact absurd rfl h
  · obtain ⟨first, hfirst⟩ : ∃ first, (split (b :: rest)).head? = some first :=
      ⟨_, List.head?_eq_some_head (split_ne_nil _)⟩
    rw [lead_cons]
    by_cases hseparator : b = separator
    · subst hseparator
      rw [if_pos rfl]
      exact ⟨rfl, _, List.head?_eq_some_head (split_ne_nil _), .inl rfl⟩
    · rw [if_neg hseparator]
      by_cases hdot : b = dot ∧ (rest = [] ∨ rest.head? = some separator)
      · rw [if_pos hdot]
        obtain ⟨rfl, rfl | hrest⟩ := hdot
        · exact ⟨rfl, [], rfl, .inr (.inl ⟨rfl, rfl⟩)⟩
        · obtain ⟨rest, rfl⟩ := List.head?_eq_some_iff.mp hrest
          refine ⟨rfl, [], ?_, .inr (.inl ⟨rfl, rfl⟩)⟩
          show (split (separator :: rest)).head? = _
          rw [split, if_pos rfl]
          rfl
      · rw [if_neg hdot]
        refine ⟨rfl, first, hfirst, .inr (.inr ⟨rfl, ?_⟩)⟩
        obtain ⟨tail, hbytes, htail⟩ := exists_of_head?_split hfirst
        rw [significant, Bool.and_eq_true, decide_eq_true_eq, decide_eq_true_eq]
        constructor
        · rintro rfl
          rcases htail with rfl | htail
          · cases hbytes
          · rw [List.nil_append] at hbytes
            rw [← hbytes] at htail
            exact hseparator (Option.some.inj htail)
        · rintro rfl
          obtain ⟨rfl, rfl⟩ := List.cons.inj hbytes
          exact hdot ⟨rfl, htail⟩

/-! ## Plain names -/

/-- The name is a piece of its own that can name a file. -/
structure Plain (name : Bytes) : Prop where
  unbroken : separator ∉ name
  meaningful : significant name = true
  stays : name ≠ [dot, dot]

variable {name : Bytes} (hname : Plain name)
include hname

theorem Plain.isAbsolute : isAbsolute ⟨name⟩ = false := by
  cases name with
  | nil => rfl
  | cons b rest =>
      have hb : b ≠ separator := fun h => hname.unbroken (h ▸ List.mem_cons_self ..)
      simpa [Path.isAbsolute] using hb

/-- A separator that the directory ends with, or that is put in, is none of the name. -/
theorem join_cases (directory : Path) :
    (directory = ⟨[]⟩ ∧ directory.join ⟨name⟩ = ⟨name⟩)
      ∨ (∃ front, directory = ⟨front ++ [separator]⟩
        ∧ directory.join ⟨name⟩ = ⟨front ++ separator :: name⟩)
      ∨ (directory.bytes ≠ []
        ∧ directory.join ⟨name⟩ = ⟨directory.bytes ++ separator :: name⟩) := by
  rcases directory with ⟨bytes⟩
  unfold join
  rw [hname.isAbsolute, if_neg Bool.false_ne_true]
  by_cases hnil : bytes = []
  · rw [if_pos (.inl hnil), hnil]
    exact .inl ⟨rfl, rfl⟩
  by_cases hend : bytes.getLast? = some separator
  · obtain ⟨front, rfl⟩ := List.getLast?_eq_some_iff.mp hend
    rw [if_pos (.inr hend), List.append_assoc]
    exact .inr (.inl ⟨front, rfl, rfl⟩)
  · rw [if_neg (not_or.mpr ⟨hnil, hend⟩)]
    exact .inr (.inr ⟨hnil, rfl⟩)

theorem steps_join (directory : Path) :
    (directory.join ⟨name⟩).steps = directory.steps ++ [name] := by
  have hsplit : (split name).filter significant = [name] := by
    rw [split_of_not_mem hname.unbroken, List.filter_cons_of_pos hname.meaningful, List.filter_nil]
  obtain ⟨rfl, hjoin⟩ | ⟨front, rfl, hjoin⟩ | ⟨-, hjoin⟩ := join_cases hname directory
  · rw [hjoin, steps, hsplit]
    rfl
  · rw [hjoin, steps, steps, split_append_separator, split_append_separator, List.filter_append,
      List.filter_append, hsplit, List.append_assoc]
    rfl
  · rw [hjoin, steps, split_append_separator, List.filter_append, hsplit, steps]

theorem lead_join (directory : Path) : (directory.join ⟨name⟩).lead = directory.lead := by
  obtain ⟨rfl, hjoin⟩ | ⟨front, rfl, hjoin⟩ | ⟨hne, hjoin⟩ := join_cases hname directory
  · rw [hjoin]
    exact lead_of_opens (.inr (.inr ⟨rfl, hname.meaningful⟩))
      (congrArg List.head? (split_of_not_mem hname.unbroken))
  · rw [hjoin]
    cases front with
    | nil => rfl
    | cons b front =>
        rw [lead_append_separator (List.cons_ne_nil b front),
          lead_append_separator (List.cons_ne_nil b front)]
  · rw [hjoin, lead_append_separator hne]

/-- A plain name is one component more, however the directory is spelled. -/
theorem components_join (directory : Path) :
    (directory.join ⟨name⟩).components = directory.components ++ [name] := by
  rw [components_eq, components_eq, lead_join hname, steps_join hname, List.append_assoc]

theorem getLast?_components_join (directory : Path) :
    (directory.join ⟨name⟩).components.getLast? = some name := by
  rw [components_join hname, List.getLast?_concat]

/-- Two plain names are the same path if and only if they are the same
name in the same directory. -/
theorem same_join_iff {name' : Bytes} (hname' : Plain name') {directory directory' : Path} :
    (directory.join ⟨name⟩).Same (directory'.join ⟨name'⟩)
      ↔ directory.Same directory' ∧ name = name' := by
  rw [Same, Same, components_join hname, components_join hname', List.append_singleton_inj]

/-- Whatever is the same path as a plain name in a directory has that name. -/
theorem fileName?_of_same_join {p directory : Path} (h : p.Same (directory.join ⟨name⟩)) :
    p.fileName? = some name := by
  have hlast : p.components.getLast? = some name := by
    rw [show p.components = _ from h, getLast?_components_join hname]
  rw [components_eq] at hlast
  refine fileName?_eq_some_iff.mpr ⟨?_, hname.stays⟩
  cases hsteps : p.steps with
  | cons first rest =>
      rw [hsteps, List.getLast?_append_of_ne_nil _ (List.cons_ne_nil _ _)] at hlast
      exact hlast
  | nil =>
      -- The last component would be the lead, which is no plain name.
      rw [hsteps, List.append_nil] at hlast
      rcases p.lead_eq_or with hlead | hlead | hlead <;> rw [hlead] at hlast <;> cases hlast
      · exact absurd (List.mem_singleton.mpr rfl) hname.unbroken
      · cases hname.meaningful

/-! ## The directory of a plain name -/

theorem parent?_of_opens {p : Path} (front : Bytes) (init : List Bytes)
    (hbytes : p.bytes = front ++ joined (init ++ [name]))
    (hinit : ∀ piece ∈ init, separator ∉ piece)
    (hopens : ∃ first, (init ++ [name]).head? = some first ∧ Opens front first) :
    p.parent? = some ⟨front ++ joined (trimmed init)⟩ := by
  have hsplit : split (joined (init ++ [name])) = init ++ [name] := by
    refine split_joined (by simp) ?_
    rw [List.forall_mem_append]
    exact ⟨hinit, by simpa using hname.unbroken⟩
  have hlead : p.lead = front := by
    obtain ⟨first, hfirst, hopens⟩ := hopens
    have h := lead_of_opens hopens (hsplit.symm ▸ hfirst)
    rw [← hbytes] at h
    exact h
  have hpieces : p.pieces = init ++ [name] := by
    rw [pieces, hlead, hbytes, List.drop_left, hsplit, trimmed_concat, if_pos hname.meaningful]
  rw [parent?, hpieces, if_neg (by simp), List.dropLast_concat, hlead]

/-- Behind a directory that ends with a piece of its own, the name is one piece more. -/
theorem bytes_join_joined {front : Bytes} (init : List Bytes) {last : Bytes} (hlast : last ≠ [])
    (hwhole : separator ∉ last) :
    (join ⟨front ++ joined (init ++ [last])⟩ ⟨name⟩).bytes
      = front ++ joined (init ++ [last] ++ [name]) := by
  have hend : (front ++ joined (init ++ [last])).getLast? = last.getLast? := by
    have hjoined := getLast?_joined_concat init hlast
    rw [List.getLast?_append, hjoined, List.getLast?_eq_some_getLast hlast, Option.some_or]
  have hseparator : ¬(front ++ joined (init ++ [last]) = []
      ∨ (front ++ joined (init ++ [last])).getLast? = some separator) := by
    rintro (hnil | hend')
    · rw [hnil] at hend
      exact hlast (List.getLast?_eq_none_iff.mp hend.symm)
    · exact hwhole (List.mem_of_getLast? (hend.symm.trans hend'))
  rw [join, hname.isAbsolute, if_neg Bool.false_ne_true, if_neg hseparator,
    joined_concat (show init ++ [last] ≠ [] by simp), List.append_assoc]

theorem parent?_join_lead {front : Bytes}
    (h : front = [] ∨ front = [separator] ∨ front = [dot]) :
    (join ⟨front⟩ ⟨name⟩).parent? = some ⟨front⟩ := by
  rcases h with rfl | rfl | rfl
  · exact parent?_of_opens hname [] [] (by rw [join, hname.isAbsolute]; rfl) (by simp)
      ⟨name, rfl, .inr (.inr ⟨rfl, hname.meaningful⟩)⟩
  · exact parent?_of_opens hname [separator] [] (by rw [join, hname.isAbsolute]; rfl) (by simp)
      ⟨name, rfl, .inl rfl⟩
  · -- Behind a dot, the separator that joins is one that an empty piece stands before.
    exact parent?_of_opens hname [dot] [[]] (by rw [join, hname.isAbsolute]; rfl) (by simp)
      ⟨[], rfl, .inr (.inl ⟨rfl, rfl⟩)⟩

/-- A plain name stands in the directory that it is joined to, if some
path leads through that directory. -/
theorem parent?_join {p directory : Path} (h : p.parent? = some directory) :
    (directory.join ⟨name⟩).parent? = some directory := by
  unfold parent? at h
  split at h
  case isTrue =>
    split at h
    case isFalse => cases h
    case isTrue =>
      cases h
      exact parent?_join_lead hname (.inl rfl)
  case isFalse hpieces =>
    cases h
    have hbegins : trimmed p.pieces.dropLast <+: split (p.bytes.drop p.lead.length) :=
      .trans (.trans (trimmed_begins _) <| List.dropLast_prefix _) (trimmed_begins _)
    have hinit : ∀ piece ∈ trimmed p.pieces.dropLast, separator ∉ piece := fun piece hpiece =>
      not_mem_of_mem_split (hbegins.subset hpiece)
    -- The directory is a lead alone, or else it ends with a piece that says something.
    rcases List.eq_nil_or_concat (trimmed p.pieces.dropLast) with htrimmed | ⟨init, last, htrimmed⟩
    · rw [htrimmed, show p.lead ++ joined [] = p.lead from List.append_nil _]
      exact parent?_join_lead hname p.lead_eq_or
    · rw [List.concat_eq_append] at htrimmed
      have hmeaningful : significant last = true := by
        refine List.of_mem_filter (List.mem_of_getLast? (l := p.pieces.dropLast.filter _) ?_)
        rw [← getLast?_trimmed, htrimmed, List.getLast?_concat]
      have hbytes : (join ⟨p.lead ++ joined (trimmed p.pieces.dropLast)⟩ ⟨name⟩).bytes
          = p.lead ++ joined (trimmed p.pieces.dropLast ++ [name]) := by
        rw [htrimmed]
        exact bytes_join_joined hname init (significant_ne_nil hmeaningful)
          (hinit last (by simp [htrimmed]))
      obtain ⟨-, first, hfirst, hopens⟩ := exists_opens hpieces
      have hne : trimmed p.pieces.dropLast ≠ [] := by simp [htrimmed]
      obtain ⟨tail, htail⟩ := hbegins
      rw [← htail, List.head?_append_of_ne_nil _ hne] at hfirst
      rw [parent?_of_opens hname _ _ hbytes hinit
        ⟨first, by rw [List.head?_append_of_ne_nil _ hne, hfirst], hopens⟩, trimmed_trimmed]

/-- Next to a path, or where it would be if it were one of the current
directory, a plain name stands in the path's directory. -/
theorem parent?_join_beside (p : Path) :
    ((p.parent?.getD ⟨[]⟩).join ⟨name⟩).parent? = some (p.parent?.getD ⟨[]⟩) := by
  cases hparent : p.parent? with
  | none => exact parent?_join_lead hname (.inl rfl)
  | some directory => exact parent?_join hname hparent

end Path

end SurfaceReport
