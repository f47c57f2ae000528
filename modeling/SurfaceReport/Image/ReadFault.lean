import SurfaceReport.Fault
import SurfaceReport.Signature

/-!
# Why an image cannot be read

A reader of images tells more causes apart than a run has use for. Those that say that the file is
no well-formed image become one fault without a text; every other cause keeps its words.
-/

namespace SurfaceReport

/-- Why an image cannot be read. -/
inductive ReadFault where
  | notSupported
  /-- A part of the contents is not what it should be. -/
  | malformed (text : String)
  | outOfBounds
  | outOfHeap
  /-- A check of the rows as they are written found a mistake. -/
  | invalidRows (text : String)
  /-- A check of what the rows mean found a mistake. -/
  | invalidMeaning (check text : String)
  /-- Some of the checks of a stage failed. -/
  | failedChecks (stage total : Nat) (checks : List String)
  | missingParent
  /-- Something refers to itself too often. -/
  | tooRecursive (limit : UInt32)
  | tooNested (limit : UInt32)
  /-- No type has this token. -/
  | noSuchType (token : Token)
  | notMapped (text : String)
  | locked (text : String)
  | notWritten (text : String)
  | other (text : String)
  deriving DecidableEq, Repr, Inhabited

namespace ReadFault

/-- Texts with a comma and a space between any two. -/
def listed : List String → String
  | [] => ""
  | [text] => text
  | text :: rest => text ++ ", " ++ listed rest

/-- The cause in words, if it is one whose words are kept. -/
def message? : ReadFault → Option String
  | notSupported | malformed _ | outOfBounds | outOfHeap | invalidRows _ => none
  | invalidMeaning check text =>
    some ("Owned validation failed in " ++ check ++ ": " ++ text)
  | failedChecks stage total checks =>
    let count := toString checks.length
    some ("Validation Stage " ++ toString stage ++ " failed with " ++ count ++ " errors: " ++
      count ++ " of " ++ toString total ++ " validators failed: " ++ listed checks)
  | missingParent => some "The parent of the current type is missing"
  | tooRecursive limit =>
    some ("Reach the maximum recursion level allowed - " ++ toString limit.toNat)
  | tooNested limit =>
    some ("Reached the maximum nesting depth allowed - " ++ toString limit.toNat)
  | noSuchType token => some ("Failed to find type in TypeSystem - " ++ token.text)
  | notMapped text => some ("Memory mapping failed: " ++ text)
  | locked text => some ("Lock error: " ++ text)
  | notWritten text => some ("I/O error: " ++ text)
  | other text => some text

/-- The fault that a run reports for a cause. -/
def toFault (f : ReadFault) : Fault :=
  match f.message? with
  | none => .invalidFormat
  | some text => .unexpected text

end ReadFault

end SurfaceReport
