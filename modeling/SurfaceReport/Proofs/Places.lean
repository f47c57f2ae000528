import SurfaceReport.Configuration
import SurfaceReport.Proofs.LogLines
import SurfaceReport.Proofs.PathParts
import SurfaceReport.Proofs.ShownText

/-!
# What reports and logs are called

The report of a run and its log are named for the assembly. Neither can
have the assembly's own name: without its extension that name would have
to be a longer text than itself, since what is derived from it begins
with all of it (`fileName?_ne_derived`). The stem is shown as text on the
way, and may change there, if it is none; but a derived name is text from
the start and would be shown unchanged.

Reports and logs are told apart by the letter that their names end in.

A path leads to a place of the path's own file name, wherever that is
(`FileSystem.getLast?_place?`), so paths of different file names never
lead to the same place (`report_ne_log`).
-/

namespace SurfaceReport

namespace Path

open Utf8

theorem plain_encode {text : String} {b : UInt8} (htext : '/' ∉ text.toList)
    (hlast : (encode text).getLast? = some b) (hb : b ≠ dot) : Plain (encode text) where
  unbroken := slash_not_mem_encode htext
  meaningful := by
    rw [significant, Bool.and_eq_true, decide_eq_true_eq, decide_eq_true_eq]
    constructor <;> intro hname <;> rw [hname] at hlast
    · cases hlast
    · exact hb (Option.some.inj hlast).symm
  stays := by
    intro hname
    rw [hname] at hlast
    exact hb (Option.some.inj hlast).symm

theorem separator_not_mem_fileName? {p : Path} {name : Bytes} (h : p.fileName? = some name) :
    separator ∉ name :=
  (mem_steps (List.mem_of_getLast? (fileName?_eq_some_iff.mp h).1)).1

/-! ## Stems -/

theorem stemOf_append {front extension : Bytes} (hfront : front ≠ []) (h : dot ∉ extension) :
    stemOf (front ++ dot :: extension) = front := by
  have hdrop : ((front ++ dot :: extension).reverse.dropWhile (· ≠ dot)).drop 1
      = front.reverse := by
    rw [List.reverse_append, List.reverse_cons, List.append_assoc,
      List.dropWhile_append_of_pos]
    · rfl
    · intro b hb
      rw [decide_eq_true_eq]
      rintro rfl
      exact h (List.mem_reverse.mp hb)
  unfold stemOf
  split
  case h_1 hnil => exact absurd (List.reverse_eq_nil_iff.mp (hdrop.symm.trans hnil)) hfront
  case h_2 => rw [hdrop, List.reverse_reverse]

theorem stemOf_subset (name : Bytes) : stemOf name ⊆ name := by
  unfold stemOf
  split
  case h_1 => exact List.Subset.refl name
  case h_2 =>
    intro b hb
    have hdropped := List.mem_of_mem_drop (List.mem_reverse.mp hb)
    exact List.mem_reverse.mp ((List.dropWhile_sublist _).subset hdropped)

end Path

namespace FileSystem

/-- What a path leads to is called what the path is called. -/
theorem getLast?_place? {fs : FileSystem} {p : Path} {place : Location}
    (h : fs.place? p = some place) : place.getLast? = p.fileName? := by
  obtain ⟨d, hd, hfile, rfl⟩ := place?_eq_some_iff.mp h
  obtain ⟨-, directory, -, rfl⟩ := destination_eq_ok_iff.mp hd
  dsimp only [Destination.isDirectory] at hfile ⊢
  simp only [Bool.or_eq_false_iff, beq_eq_false_iff_ne] at hfile
  obtain ⟨⟨hnone, hstays⟩, hclimbs⟩ := hfile
  obtain ⟨name, hname⟩ := Option.ne_none_iff_exists'.mp hnone
  rw [hname] at hstays hclimbs
  rw [ne_eq, Option.some.injEq] at hstays hclimbs
  rw [hname, Option.getD_some, List.getLast?_concat, eq_comm]
  obtain ⟨front, hfront⟩ := List.getLast?_eq_some_iff.mp hname
  -- The last name neither stays nor climbs, so it is a step and the last one.
  have hsteps : p.steps = (names p).filter (· ≠ [Path.dot]) := by
    rw [names, List.filter_filter]
    exact List.filter_congr fun piece _ => Bool.and_comm _ _
  refine Path.fileName?_eq_some_iff.mpr ⟨?_, hclimbs⟩
  rw [hsteps, hfront, List.filter_append, List.filter_cons_of_pos (by simpa using hstays),
    List.filter_nil, List.getLast?_concat]

end FileSystem

namespace Moment

theorem IsTimeChar.ne_slash {c : Char} (h : IsTimeChar c) : c ≠ '/' := by
  rintro rfl
  rcases h with h | h | h | h <;> cases h

theorem slash_not_mem_fileText (m : Moment) : '/' ∉ m.fileText := by
  have hyear : '/' ∉ yearText m.year := fun h => (isTimeChar_yearText _ h).ne_slash rfl
  have hfield (n : Nat) : '/' ∉ padded 2 n := fun h => (isTimeChar_padded _ h).ne_slash rfl
  simp [fileText, hyear, hfield]

end Moment

namespace RunConfig

open Utf8

variable (c : RunConfig)

theorem slash_not_mem_assemblyStem : '/' ∉ c.assemblyStem.toList := by
  unfold assemblyStem
  cases hstem : c.assemblyPath.stem? with
  | none => exact List.not_mem_nil
  | some stem =>
      obtain ⟨name, hname, rfl⟩ := Option.map_eq_some_iff.mp hstem
      dsimp only [shown]
      rw [String.toList_ofList]
      exact slash_not_mem_decode fun h =>
        Path.separator_not_mem_fileName? hname (Path.stemOf_subset name h)

/-- A name that begins with the whole stem of the assembly and has an
extension behind some more is not the assembly's. -/
theorem fileName?_ne_derived {middle : String} (hmiddle : middle ≠ "") (extension : String)
    (h : Path.dot ∉ encode extension) :
    c.assemblyPath.fileName? ≠ some (encode (c.assemblyStem ++ middle ++ ("." ++ extension))) := by
  intro hname
  -- The stem would be a text then, and so be shown as all of itself, with the middle.
  have hstem : c.assemblyPath.stem? = some (encode (c.assemblyStem ++ middle)) := by
    have hne : encode (c.assemblyStem ++ middle) ≠ [] := by
      rw [encode_append]
      exact List.append_ne_nil_of_right_ne_nil _ (encode_ne_nil hmiddle)
    have hdot : encode "." = [Path.dot] := by decide +kernel
    rw [Path.stem?, hname, Option.map_some, encode_append, encode_append ".", hdot]
    exact congrArg some (Path.stemOf_append hne h)
  have hlonger : c.assemblyStem = c.assemblyStem ++ middle := by
    conv_lhs => rw [assemblyStem, hstem]
    exact shown_encode _
  have hnil : middle.toList = [] := by
    rw [← List.append_right_eq_self, ← String.toList_append, ← hlonger]
  exact hmiddle (String.toList_eq_nil_iff.mp hnil)

theorem getLast?_encode_append (a : String) {suffix : String} {b : UInt8}
    (h : (encode suffix).getLast? = some b) : (encode (a ++ suffix)).getLast? = some b := by
  rw [encode_append, List.getLast?_append, h]
  rfl

theorem getLast?_reportName :
    (encode (c.assemblyStem ++ reportSuffix)).getLast? = some 0x6C :=
  getLast?_encode_append _ (by decide +kernel)

theorem getLast?_logName (started : Moment) :
    (encode (c.logName started)).getLast? = some 0x67 :=
  getLast?_encode_append _ (by decide +kernel)

theorem plain_reportName : Path.Plain (encode (c.assemblyStem ++ reportSuffix)) := by
  refine Path.plain_encode ?_ c.getLast?_reportName (by decide)
  rw [String.toList_append, List.mem_append, not_or]
  exact ⟨c.slash_not_mem_assemblyStem, by decide⟩

theorem plain_logName (started : Moment) : Path.Plain (encode (c.logName started)) := by
  refine Path.plain_encode ?_ (c.getLast?_logName started) (by decide)
  simp only [logName, String.toList_append, List.mem_append, not_or, String.toList_ofList]
  exact ⟨⟨⟨c.slash_not_mem_assemblyStem, by decide⟩, started.slash_not_mem_fileText⟩, by decide⟩

/-! ## Where they lie -/

variable {c} {d : RunConfig} {programDirectory : Except IoCause Path} {started : Moment}
  {p log : Path}

theorem exists_join_of_logPath (h : c.logPath programDirectory started = .ok log) :
    ∃ directory : Path, log = directory.join (.ofText (c.logName started)) := by
  unfold logPath at h
  rcases c with ⟨assemblyPath, namespaces, _ | directory⟩
  · cases programDirectory with
    | error cause => cases h
    | ok directory => exact ⟨directory, (Except.ok.inj h).symm⟩
  · exact ⟨directory, (Except.ok.inj h).symm⟩

/-- Whatever is the same path as that of a report is called like the report. -/
theorem fileName?_of_same_outputPath (h : p.Same c.outputPath) :
    p.fileName? = some (encode (c.assemblyStem ++ reportSuffix)) :=
  Path.fileName?_of_same_join c.plain_reportName h

theorem fileName?_of_same_logPath (hlog : c.logPath programDirectory started = .ok log)
    (h : p.Same log) : p.fileName? = some (encode (c.logName started)) := by
  obtain ⟨directory, rfl⟩ := exists_join_of_logPath hlog
  exact Path.fileName?_of_same_join (c.plain_logName started) h

theorem reportName_ne_logName (c d : RunConfig) (started : Moment) :
    encode (c.assemblyStem ++ reportSuffix) ≠ encode (d.logName started) := by
  intro h
  have hlast := c.getLast?_reportName
  rw [h, d.getLast?_logName] at hlast
  cases hlast

theorem assemblyName_ne_reportName (c : RunConfig) :
    c.assemblyPath.fileName? ≠ some (encode (c.assemblyStem ++ reportSuffix)) := by
  have h := c.fileName?_ne_derived (show "_Export" ≠ "" by decide) "xml" (by decide +kernel)
  rwa [String.append_assoc] at h

theorem assemblyName_ne_logName (c : RunConfig) (started : Moment) :
    c.assemblyPath.fileName? ≠ some (encode (c.logName started)) := by
  have h := c.fileName?_ne_derived (show "_" ++ .ofList started.fileText ≠ "" by simp) "log"
    (by decide +kernel)
  have hname : c.logName started
      = c.assemblyStem ++ ("_" ++ .ofList started.fileText) ++ ("." ++ "log") :=
    congrArg (· ++ ".log") String.append_assoc
  rwa [hname]

/-- No log lies where a report does, be it of the same run or of another. -/
theorem report_ne_log {fs later : FileSystem} {report place : Location}
    (hlog : d.logPath programDirectory started = .ok log) (hplace : fs.place? log = some place)
    (hreport : later.place? c.outputPath = some report) : report ≠ place := by
  rintro rfl
  have hname := (FileSystem.getLast?_place? hreport).trans (fileName?_of_same_outputPath rfl)
  have hname' := (FileSystem.getLast?_place? hplace).trans (fileName?_of_same_logPath hlog rfl)
  exact reportName_ne_logName c d started (Option.some.inj (hname.symm.trans hname'))

end RunConfig

end SurfaceReport
