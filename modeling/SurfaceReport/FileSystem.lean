import SurfaceReport.Fault

/-!
# A file system

Directories, files and devices at places below a root, and what an operating system answers when a
path is looked up, a file created or bytes written. Places are lists of names; a path leads to a
place only through directories that exist, and `..` climbs from where the way has come so far.

The room left is part of the state, so that a write can stop with an error after any number of
bytes. What was written up to then stays.
-/

namespace SurfaceReport

/-- A place below the root: the names on the way to it. The root is the empty way. -/
abbrev Location := List Bytes

/-- What a device does with bytes. -/
inductive Device where
  | full
  | null
  deriving DecidableEq, Repr, Inhabited

inductive Entry where
  | directory
  | file (content : ByteArray)
  | device (device : Device)
  deriving Inhabited

instance : DecidableEq Entry
  | .directory, .directory => isTrue rfl
  | .file a, .file b =>
    match ByteArray.decEq a b with
    | isTrue h => isTrue (h ▸ rfl)
    | isFalse h => isFalse fun e => h (Entry.file.inj e)
  | .device a, .device b =>
    if h : a = b then isTrue (h ▸ rfl) else isFalse fun e => h (Entry.device.inj e)
  | .directory, .file _ | .directory, .device _ | .file _, .directory | .file _, .device _
  | .device _, .directory | .device _, .file _ => isFalse nofun

/-- The entries below the root, and the directory that relative paths start in. -/
structure FileSystem where
  entries : List (Location × Entry) := []
  workingDirectory : Location := []
  /-- How many more bytes files can hold; without a number there is no limit. -/
  free : Option Nat := none
  deriving Inhabited

namespace FileSystem

/-! ## Entries -/

def find? (fs : FileSystem) (place : Location) : Option Entry :=
  if place = [] then some .directory
  else (fs.entries.find? fun e => e.1 == place).map (·.2)

def put (fs : FileSystem) (place : Location) (entry : Entry) : FileSystem :=
  if fs.entries.any fun e => e.1 == place then
    { fs with entries := fs.entries.map fun e => if e.1 == place then (place, entry) else e }
  else { fs with entries := fs.entries ++ [(place, entry)] }

/-! ## Ways -/

/-- The longest name that a directory takes, in bytes. -/
def nameLimit : Nat := 255

/-- The length that a path has to stay below, in bytes. -/
def pathLimit : Nat := 4096

/-- A path that can be asked about at all: no name holds a zero byte, and the whole is neither empty
nor too long. -/
def usable (p : Path) : Except IoCause Unit :=
  if p.bytes.contains 0 then .error (.other "file name contained an unexpected NUL byte")
  else if p.bytes = [] then .error .noEntry
  else if pathLimit ≤ p.bytes.length then .error .nameTooLong
  else .ok ()

def lookup (fs : FileSystem) (directory : Location) (name : Bytes) : Except IoCause Entry :=
  if nameLimit < name.length then .error .nameTooLong
  else match fs.find? (directory ++ [name]) with
    | none => .error .noEntry
    | some entry => .ok entry

/-- One step on the way: only into a directory, or out of one. -/
def step (fs : FileSystem) (here : Location) (name : Bytes) : Except IoCause Location :=
  if name = [Path.dot] then .ok here
  else if name = [Path.dot, Path.dot] then .ok here.dropLast
  else match fs.lookup here name with
    | .error cause => .error cause
    | .ok .directory => .ok (here ++ [name])
    | .ok _ => .error .notADirectory

def walk (fs : FileSystem) (here : Location) : List Bytes → Except IoCause Location
  | [] => .ok here
  | name :: rest =>
    match fs.step here name with
    | .error cause => .error cause
    | .ok there => fs.walk there rest

structure Destination where
  directory : Location
  /-- Missing if the path leads to the root and no further. -/
  name : Option Bytes
  /-- A separator stands behind the name: a directory is meant. -/
  endsWithSeparator : Bool
  deriving DecidableEq

def destination (fs : FileSystem) (p : Path) : Except IoCause Destination := do
  usable p
  let names := (Path.split p.bytes).filter (· ≠ [])
  let start := if p.isAbsolute then [] else fs.workingDirectory
  let directory ← fs.walk start names.dropLast
  return ⟨directory, names.getLast?, p.bytes.getLast? == some Path.separator⟩

/-- The name climbs, stays, or leads on to the root: what it leads to is a directory. -/
def Destination.isDirectory (d : Destination) : Bool :=
  d.name == none || d.name == some [Path.dot] || d.name == some [Path.dot, Path.dot]

/-! ## Asking -/

def entry (fs : FileSystem) (p : Path) : Except IoCause Entry := do
  let d ← fs.destination p
  if d.isDirectory then return .directory
  else match ← fs.lookup d.directory (d.name.getD []) with
    | .directory => return .directory
    | other => if d.endsWithSeparator then .error .notADirectory else return other

def isFile (fs : FileSystem) (p : Path) : Bool :=
  match fs.entry p with
  | .ok (.file _) => true
  | _ => false

def read (fs : FileSystem) (p : Path) : Except IoCause ByteArray :=
  match fs.entry p with
  | .ok (.file content) => .ok content
  | .ok .directory => .error .isADirectory
  | .ok (.device _) => .ok .empty
  | .error cause => .error cause

/-! ## Writing -/

/-- Opens a file to write it anew: where it is, and the file system with the file there and empty. A
device is left as it is. -/
def create (fs : FileSystem) (p : Path) : Except IoCause (Location × FileSystem) := do
  let d ← fs.destination p
  if d.isDirectory || d.endsWithSeparator then .error .isADirectory
  else
    let name := d.name.getD []
    let place := d.directory ++ [name]
    match fs.lookup d.directory name with
    | .ok .directory => .error .isADirectory
    | .ok (.device _) => return (place, fs)
    | .ok (.file _) => return (place, fs.put place (.file .empty))
    | .error cause =>
      if cause = .noEntry then return (place, fs.put place (.file .empty)) else .error cause

/-- Writes bytes at the end of an open file, as many as there is room for, and fails if some are
left over. -/
def append (fs : FileSystem) (place : Location) (bytes : ByteArray) :
    Except IoCause Unit × FileSystem :=
  match fs.find? place with
  | some (.file content) =>
    match fs.free with
    | none => (.ok (), fs.put place (.file (content ++ bytes)))
    | some room =>
      if bytes.size ≤ room then
        (.ok (), { fs.put place (.file (content ++ bytes)) with free := some (room - bytes.size) })
      else
        (.error .noSpace,
          { fs.put place (.file (content ++ bytes.extract 0 room)) with free := some 0 })
  | some (.device .full) => (if bytes.size = 0 then .ok () else .error .noSpace, fs)
  | some (.device .null) => (.ok (), fs)
  | some .directory => (.error .isADirectory, fs)
  | none => (.ok (), fs)

/-- Writes a whole file: opens it anew, then writes the bytes. -/
def write (fs : FileSystem) (p : Path) (bytes : ByteArray) : Except IoCause Unit × FileSystem :=
  match fs.create p with
  | .error cause => (.error cause, fs)
  | .ok (place, fs) => fs.append place bytes

/-! ## Observing -/

/-- The places that a path leads through, with its end, if all that it names are directories. -/
def placesFrom (here : Location) : List Bytes → List Location
  | [] => []
  | name :: rest =>
    let there :=
      if name = [Path.dot] then here
      else if name = [Path.dot, Path.dot] then here.dropLast
      else here ++ [name]
    there :: placesFrom there rest

/-- The places that a path leads through from a working directory. -/
def places (workingDirectory : Location) (p : Path) : List Location :=
  placesFrom (if p.isAbsolute then [] else workingDirectory)
    ((Path.split p.bytes).filter (· ≠ []))

/-- The path from the root to a place. -/
def pathTo (place : Location) : Path := ⟨Path.separator :: Path.joined place⟩

/-- The files that have another content than in an earlier state. -/
def changedFiles (earlier later : FileSystem) : List (Location × ByteArray) :=
  later.entries.filterMap fun (place, entry) =>
    match entry with
    | .file content => if earlier.find? place = some entry then none else some (place, content)
    | _ => none

end FileSystem

end SurfaceReport
