import SurfaceReport.EventLog
import SurfaceReport.FileSystem

/-!
# Run logs

A run log is the record that a user keeps of one export: a line for each event, with the time in
front, on the console and in a file if there is one. The console gets the line first, so that an
event is seen even if the file cannot take it.
-/

namespace SurfaceReport

structure World where
  files : FileSystem := {}
  console : String := ""
  /-- What the clock shows when it is read for the first, second, third time. -/
  clock : Nat → Moment := fun _ => default
  /-- How often the clock was read. -/
  readings : Nat := 0
  deriving Inhabited

namespace World

def now (w : World) : Moment × World :=
  (w.clock w.readings, { w with readings := w.readings + 1 })

def print (w : World) (text : String) : World :=
  { w with console := w.console ++ text }

end World

namespace RunLog

/-- Opens a log file, empty. -/
def create (w : World) (p : Path) : Except Fault (Location × World) :=
  match w.files.create p with
  | .error cause => .error (.io cause)
  | .ok (place, files) => .ok (place, { w with files })

/-- Records an event: one line on the console and, if there is a file, the same line there. -/
def record (file : Option Location) (e : Event) (w : World) : Except Fault Unit × World :=
  let (time, w) := w.now
  let line := e.line time ++ "\n"
  let w := w.print line
  match file with
  | none => (.ok (), w)
  | some place =>
    match w.files.append place line.toUTF8 with
    | (.ok (), files) => (.ok (), { w with files })
    | (.error cause, files) => (.error (.io cause), { w with files })

/-- The run log as a receiver of events. -/
def sink (file : Option Location) : EventSink World where
  record := record file

end RunLog

end SurfaceReport
