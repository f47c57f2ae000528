import Std.Time.Format
import SurfaceReport.Image.Reader
import SurfaceReport.Program

/-!
# The command line program

Looks at the files that a run can ask about, runs it on them, and writes and prints what it changed.
The clock is read once, when the program starts.
-/

namespace SurfaceReport

namespace Main

def now : IO Moment := do
  let time ← Std.Time.PlainDateTime.now
  let moment := Moment.ofFields? time.date.year time.date.month.val.toNat time.date.day.val.toNat
    time.time.hour.val.toNat time.time.minute.val.toNat time.time.second.val.toNat
  return (moment time.time.nanosecond.val.toNat).getD default

def entryAt (place : Location) : IO (Option Entry) := do
  let path := (FileSystem.pathTo place).shown
  try
    let found := (← (← IO.FS.realPath ⟨path⟩).metadata).type
    match found with
    | .dir => return some .directory
    | .file => return some (.file (← IO.FS.readBinFile ⟨path⟩))
    | _ => return some (.device .null)
  catch _ => return none

/-- The part of the file system that some paths lead through. -/
def observe (workingDirectory : Location) (paths : List Path) : IO FileSystem := do
  let places := (paths.flatMap (FileSystem.places workingDirectory)).eraseDups
  let entries ← places.filterMapM fun place => do
    return (← entryAt place).map (place, ·)
  return { entries, workingDirectory }

/-- Writes what a run changed. -/
def commit (earlier later : FileSystem) : IO Unit := do
  for (place, content) in FileSystem.changedFiles earlier later do
    IO.FS.writeBinFile ⟨(FileSystem.pathTo place).shown⟩ content

def programDirectory : IO (Except IoCause Path) := do
  try
    return .ok ((Path.ofText (toString (← IO.appPath))).parent?.getD (.ofText "."))
  catch e => return .error (.other (toString e))

end Main

end SurfaceReport

open SurfaceReport in
def main (arguments : List String) : IO UInt32 := do
  let given := arguments.map Utf8.encode
  let started ← Main.now
  let beside ← Main.programDirectory
  let here := ((Path.split (Utf8.encode (toString (← IO.currentDir)))).filter (· ≠ []))
  let files ← Main.observe here (Program.paths beside given started)
  let finish := Program.run beside Image.reader given { files, clock := fun _ => started }
  Main.commit files finish.world.files
  (← IO.getStdout).putStr finish.world.console
  (← IO.getStderr).putStr finish.errors
  return finish.exitCode.toUInt32
