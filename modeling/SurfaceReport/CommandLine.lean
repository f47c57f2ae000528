import SurfaceReport.Configuration
import SurfaceReport.Text.Terminal

/-!
# The command line

The program takes one file, three options and the usual requests for help and for its version. An
argument that may still get a value, or whose value is not looked at yet, is *pending*: it is
settled when the next argument of a known kind comes, or at the end. That decides which of two
mistakes is reported, because an unknown argument is reported before anything that is pending.

The namespace option takes the next argument whatever it looks like. No other option takes an
argument that is an option itself.
-/

namespace SurfaceReport

namespace CommandLine

/-! ## What may be given -/

inductive Slot where
  | file
  | ns
  | logDirectory
  | verbose
  | help
  | version
  deriving DecidableEq, Repr, Inhabited

/-- A place as it is written in messages. -/
def Slot.usage : Slot → String
  | .file => "[FILE]"
  | .ns => "--namespace [<NAME>]"
  | .logDirectory => "--log-dir <DIR>"
  | .verbose => "--verbose"
  | .help => "--help"
  | .version => "--version"

structure Arguments where
  path : Option Path := none
  /-- Empty if the option was given without a name. -/
  ns : Option String := none
  logDirectory : Option Path := none
  verbose : Bool := false
  deriving DecidableEq, Repr, Inhabited

/-- The run that the arguments ask for, if they name a file. -/
def Arguments.config? (a : Arguments) : Option RunConfig :=
  a.path.map fun path => ⟨path, .ofArgument a.ns, a.logDirectory⟩

/-! ## What may be wrong -/

inductive Misuse where
  | unknownArgument (shown : String)
  | repeated (slot : Slot)
  | valueNotTaken (value : String) (slot : Slot)
  | valueMissing (slot : Slot)
  | notText
  deriving DecidableEq, Repr, Inhabited

/-- The mistake as a user reads it. An argument shows what a terminal would show of it, so that it
can give no commands. -/
def Misuse.message : Misuse → String
  | unknownArgument shown =>
    "error: unexpected argument '" ++ Terminal.shown shown ++ "' found"
  | repeated slot => "error: the argument '" ++ slot.usage ++ "' cannot be used multiple times"
  | valueNotTaken value slot =>
    "error: unexpected value '" ++ Terminal.shown value ++ "' for '" ++ slot.usage ++
      "' found; no more were expected"
  | valueMissing slot =>
    "error: a value is required for '" ++ slot.usage ++ "' but none was supplied"
  | notText => "error: invalid UTF-8 was detected in one or more arguments"

inductive Stop where
  | help
  | version
  | misuse (mistake : Misuse)
  deriving DecidableEq, Repr, Inhabited

/-! ## Texts -/

/-- Printed when no file is given. -/
def usageLine : String := "Usage: asminspect <path-to-assembly> [--namespace <namespaceName>]"

def versionText : String := "asminspect 0.1.0\n"

def helpLines : List String :=
  ["Export a filtered, sorted summary of a .NET assembly's public surface to XML",
    "",
    "Usage: asminspect [OPTIONS] [FILE]",
    "",
    "Arguments:",
    "  [FILE]  Path to the .NET assembly file",
    "",
    "Options:",
    "      --namespace [<NAME>]  Export only this namespace. Without a value, or when followed " ++
      "by another \x60--\x60 option, list the available namespaces instead",
    "      --log-dir <DIR>       Directory for the run log (default: the directory of this " ++
      "executable)",
    "  -v, --verbose             Enable verbose (debug-level) logging output",
    "  -h, --help                Print help",
    "  -V, --version             Print version"]

def helpText : String := String.join (helpLines.map (· ++ "\n"))

/-! ## Settling what is pending -/

/-- An argument that is not settled yet. -/
inductive Pending where
  | nothing
  | file (value : Bytes)
  | ns (value : Option Bytes)
  | logDirectory (value : Option Bytes)
  deriving DecidableEq, Repr, Inhabited

/-- Puts a pending argument in its place. A place that is filled already is noticed before the value
is looked at, a missing value before that. -/
def Pending.settle (p : Pending) (a : Arguments) : Except Stop Arguments :=
  match p with
  | nothing => .ok a
  | file value =>
    if a.path.isSome then .error (.misuse (.repeated .file))
    else if value = [] then .error (.misuse (.valueMissing .file))
    else .ok { a with path := some ⟨value⟩ }
  | ns value =>
    if a.ns.isSome then .error (.misuse (.repeated .ns))
    else match Utf8.text? (value.getD []) with
      | none => .error (.misuse .notText)
      | some name => .ok { a with ns := some name }
  | logDirectory none => .error (.misuse (.valueMissing .logDirectory))
  | logDirectory (some value) =>
    if a.logDirectory.isSome then .error (.misuse (.repeated .logDirectory))
    else if value = [] then .error (.misuse (.valueMissing .logDirectory))
    else .ok { a with logDirectory := some ⟨value⟩ }

/-! ## Reading the arguments -/

/-- How far the arguments are read. -/
structure Reading where
  pending : Pending := .nothing
  arguments : Arguments := {}
  fileGiven : Bool := false
  /-- Two dashes have been given: what follows is no option. -/
  optionsEnded : Bool := false
  deriving DecidableEq, Repr, Inhabited

namespace Reading

def expect (r : Reading) (next : Pending) : Except Stop Reading := do
  let arguments ← r.pending.settle r.arguments
  return { r with pending := next, arguments }

/-- Settles what is pending, and an argument that brings its value along. -/
def settleAlso (r : Reading) (complete : Pending) : Except Stop Reading := do
  let r ← r.expect complete
  r.expect .nothing

def setVerbose (r : Reading) : Except Stop Reading := do
  let r ← r.expect .nothing
  if r.arguments.verbose then .error (.misuse (.repeated .verbose))
  else return { r with arguments := { r.arguments with verbose := true } }

/-- Ends the reading, unless what is pending is a mistake. -/
def stop (r : Reading) (reason : Stop) : Except Stop Reading := do
  let _ ← r.expect .nothing
  .error reason

def plainOption (r : Reading) (slot : Slot) (value : Option Bytes)
    (act : Reading → Except Stop Reading) : Except Stop Reading :=
  match value with
  | some value => .error (.misuse (.valueNotTaken (Utf8.shown value) slot))
  | none => act r

def longOption (r : Reading) (name : Bytes) (value : Option Bytes) : Except Stop Reading :=
  if name = Utf8.encode "namespace" then
    if value.isSome then r.settleAlso (.ns value) else r.expect (.ns none)
  else if name = Utf8.encode "log-dir" then
    if value.isSome then r.settleAlso (.logDirectory value) else r.expect (.logDirectory none)
  else if name = Utf8.encode "verbose" then r.plainOption .verbose value setVerbose
  else if name = Utf8.encode "help" then r.plainOption .help value (·.stop .help)
  else if name = Utf8.encode "version" then r.plainOption .version value (·.stop .version)
  else .error (.misuse (.unknownArgument ("--" ++ Utf8.shown name)))

/-- The first character of some bytes, or all of them if they do not begin with one. -/
def shownFirst (lead : UInt8) (rest : Bytes) : String :=
  let (c, taken) := Utf8.step lead rest
  if (Utf8.tailRanges lead).map List.length = some taken then .ofList [c]
  else Utf8.shown (lead :: rest)

def shortOptions (r : Reading) : Bytes → Except Stop Reading
  | [] => .ok r
  | letter :: rest =>
    if letter = 'v'.toUInt8 then do shortOptions (← r.setVerbose) rest
    else if letter = 'h'.toUInt8 then r.stop .help
    else if letter = 'V'.toUInt8 then r.stop .version
    else .error (.misuse (.unknownArgument ("-" ++ shownFirst letter rest)))

/-- An argument that is no option. Only one is taken. -/
def plainArgument (r : Reading) (value : Bytes) : Except Stop Reading :=
  if r.fileGiven then .error (.misuse (.unknownArgument (Utf8.shown value)))
  else do
    let r ← r.expect (.file value)
    return { r with fileGiven := true }

/-- The dash that begins an option. -/
def dash : UInt8 := 0x2D

/-- Takes a value off its option: what stands before and behind the first equals sign. -/
def splitValue (text : Bytes) : Bytes × Option Bytes :=
  match text.dropWhile (· ≠ 0x3D) with
  | [] => (text, none)
  | _ :: value => (text.takeWhile (· ≠ 0x3D), some value)

/-- An argument that is neither an option nor the value of the namespace option: the value of an
option that waits for one, or the file. -/
def otherArgument (r : Reading) (argument : Bytes) : Except Stop Reading :=
  if r.pending = .logDirectory none then .ok { r with pending := .logDirectory (some argument) }
  else r.plainArgument argument

def next (r : Reading) (argument : Bytes) : Except Stop Reading :=
  if r.optionsEnded then r.plainArgument argument
  else if r.pending = .ns none then .ok { r with pending := .ns (some argument) }
  else match argument with
    | a :: b :: rest =>
      if a = dash ∧ b = dash then
        if rest = [] then .ok { r with optionsEnded := true }
        else r.longOption (splitValue rest).1 (splitValue rest).2
      else if a = dash then r.shortOptions (b :: rest)
      else r.otherArgument argument
    | _ => r.otherArgument argument

/-- Reads the arguments that are left, and settles what is pending at the end. -/
def finish (r : Reading) : List Bytes → Except Stop Arguments
  | [] => r.pending.settle r.arguments
  | argument :: rest => do finish (← r.next argument) rest

end Reading

/-- What the arguments behind the program's name ask for. -/
def parse (arguments : List Bytes) : Except Stop Arguments :=
  ({} : Reading).finish arguments

end CommandLine

end SurfaceReport
