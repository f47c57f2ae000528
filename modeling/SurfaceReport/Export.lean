import SurfaceReport.Configuration
import SurfaceReport.Namespaces
import SurfaceReport.Report.Xml
import SurfaceReport.RunLog

/-!
# One run

A run first makes sure that its assembly is a file; nothing is opened before that. If it is asked
for namespaces it lists them, with a log on the console alone. Otherwise it creates the log file,
reads the assembly, builds the report and writes the document beside the assembly.

From the moment a log is there, every fault is folded into a fatal one, recorded as the last event
and handed back. Whatever went wrong before that is handed back as it is, with no event recorded.
-/

namespace SurfaceReport

/-- How a successful run ended. -/
inductive Outcome where
  | exported (output log : Path)
  | namespaces (names : List String)
  deriving DecidableEq, Repr, Inhabited

/-- How assemblies are read: what a path offers, and the diagnostics that opening it leaves. -/
abbrev Reader := FileSystem → Path → Except Fault Source × List String

structure Stage where
  world : World := {}
  /-- Receives the listing of namespaces. -/
  listing : Receiver := {}
  /-- The paths that were opened for reading, oldest first. -/
  opened : List Path := []
  /-- The events that the run log took, oldest first. -/
  recorded : List Event := []
  /-- The events that it did not take. -/
  refused : List Event := []
  deriving Inhabited

/-- Keeps an event with those that were recorded or with those that were not. -/
def Stage.keep (stage : Stage) (e : Event) : Except Fault Unit → Stage
  | .ok () => { stage with recorded := stage.recorded ++ [e] }
  | .error _ => { stage with refused := stage.refused ++ [e] }

/-- The run log on the stage. -/
def Stage.sink (file : Option Location) : EventSink Stage where
  record e stage :=
    let (answer, world) := RunLog.record file e stage.world
    (answer, { stage with world }.keep e answer)

namespace Run

/-! ## Steps -/

def onStage {α : Type} (act : Stage → Except Fault α × Stage) : Recording Stage α :=
  ExceptT.mk fun trail =>
    let (answer, stage) := act trail.sink
    (answer, { trail with sink := stage })

def stage : Recording Stage Stage := onStage fun s => (.ok s, s)

def now : Recording Stage Moment :=
  onStage fun s =>
    let (time, world) := s.world.now
    (.ok time, { s with world })

def openAssembly (reader : Reader) (path : Path) : Recording Stage Source := do
  onStage fun s => (.ok (), { s with opened := s.opened ++ [path] })
  let (result, notes) := reader (← stage).world.files path
  Recording.diagnose notes
  Recording.ofExcept result

def createLog (path : Path) : Recording Stage Location := do
  let place ← onStage fun s =>
    match RunLog.create s.world path with
    | .error fault => (.error fault, s)
    | .ok (place, world) => (.ok place, { s with world })
  Recording.diagnose ["run log opened at " ++ path.shown]
  return place

/-- Writes a document. A fault leaves whatever was written before it. -/
def writeDocument (root : Node) (path : Path) : Recording Stage Unit :=
  onStage fun s =>
    let (answer, files) := s.world.files.write path (Xml.bytes root)
    (answer.mapError Fault.io, { s with world := { s.world with files } })

/-- Folds a fault into a fatal one, records it and hands it back. If the log does not take the
record the fault is handed back all the same. -/
def reportFailure {α : Type} (sink : EventSink Stage) (work : Recording Stage α) :
    Recording Stage α :=
  tryCatch work fun fault => do
    let fatal := fault.toFatal
    tryCatch (Recording.record sink ⟨.error, fatal.message⟩) fun refusal =>
      Recording.diagnose ["could not record failure in the run log: " ++ refusal.message]
    throw fatal

/-! ## Modes -/

/-- Lists the namespaces that an assembly exports. -/
def listNamespaces (reader : Reader) (path : Path) : Recording Stage (List String) := do
  let source ← openAssembly reader path
  let names ← discoverNamespaces source
  onStage fun s =>
    let (answer, listing) := writeListing s.listing names
    (answer, { s with listing })
  return names

def writeReport (sink : EventSink Stage) (reader : Reader) (c : RunConfig) :
    Recording Stage Path := do
  Recording.record sink (.info ("Reading assembly: " ++ c.assemblyPath.shown))
  let source ← openAssembly reader c.assemblyPath
  let report ← Report.build sink (.within c.namespaces.constraint?) source
  writeDocument report c.outputPath
  return c.outputPath

def exportReport (sink : EventSink Stage) (reader : Reader) (c : RunConfig) (log : Path) :
    Recording Stage Outcome := do
  let output ← writeReport sink reader c
  Recording.record sink ⟨.success, "Export complete. XML saved to '" ++ output.shown ++ "'"⟩
  Recording.record sink (.info ("Log file saved as '" ++ log.shown ++ "'"))
  return .exported output log

/-- The whole run. `programDirectory` is where the program lies, if that can be found out. -/
def run (programDirectory : Except IoCause Path) (reader : Reader) (c : RunConfig) :
    Recording Stage Outcome := do
  if !(← stage).world.files.isFile c.assemblyPath then
    throw (.fileNotFound c.assemblyPath)
  else if c.namespaces.isDiscovery then
    reportFailure (Stage.sink none) do
      return .namespaces (← listNamespaces reader c.assemblyPath)
  else
    let started ← now
    let path ← Recording.ofExcept (c.logPath programDirectory started)
    let file ← createLog path
    reportFailure (Stage.sink (some file)) (exportReport (Stage.sink (some file)) reader c path)

end Run

end SurfaceReport
