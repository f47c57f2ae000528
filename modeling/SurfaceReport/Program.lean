import SurfaceReport.CommandLine
import SurfaceReport.Export

/-!
# The program as a whole

From its arguments to its exit status. Of the faults that a run ends with, the fatal ones are on the
console already, as the last line of the run log; the others are printed here, so that each is
printed once.
-/

namespace SurfaceReport

namespace Program

structure Finish where
  /-- The exit status: 0 for success, 1 for a failed run, 2 for misuse. -/
  exitCode : Nat
  world : World
  /-- What goes to the stream for errors. -/
  errors : String := ""
  deriving Inhabited

/-- The line for a fault that is in no run log. -/
def faultLine (fault : Fault) : String :=
  "[ERROR] " ++ fault.message ++ "\n"

def misuseText (mistake : CommandLine.Misuse) : String :=
  mistake.message ++ "\n\nFor more information, try '--help'.\n"

/-- The diagnostics of a run, if they are wanted. -/
def diagnosticText (verbose : Bool) (diagnostics : List String) : String :=
  if verbose then String.join (diagnostics.map fun line => "[DEBUG] " ++ line ++ "\n") else ""

/-- The world after a run, with the listing on the console. -/
def worldAfter (stage : Stage) : World :=
  stage.world.print (Utf8.shown stage.listing.received.toList)

def inspect (programDirectory : Except IoCause Path) (reader : Reader) (verbose : Bool)
    (c : RunConfig) (world : World) : Finish :=
  let (result, trail) := (Run.run programDirectory reader c).runFrom { world }
  let after := worldAfter trail.sink
  let errors := diagnosticText verbose trail.diagnostics
  match result with
  | .ok _ => ⟨0, after, errors⟩
  | .error fault =>
    ⟨1, if fault.isFatal then after else after.print (faultLine fault), errors⟩

/-- Runs the program with the arguments behind its name. -/
def run (programDirectory : Except IoCause Path) (reader : Reader) (arguments : List Bytes)
    (world : World) : Finish :=
  match CommandLine.parse arguments with
  | .error .help => { exitCode := 0, world := world.print CommandLine.helpText }
  | .error .version => { exitCode := 0, world := world.print CommandLine.versionText }
  | .error (.misuse mistake) => { exitCode := 2, world, errors := misuseText mistake }
  | .ok given =>
    match given.config? with
    | none => { exitCode := 0, world := world.print (CommandLine.usageLine ++ "\n") }
    | some config => inspect programDirectory reader given.verbose config world

/-- The paths that a run can ask about: those of the assembly, the report and the log. -/
def paths (programDirectory : Except IoCause Path) (arguments : List Bytes) (started : Moment) :
    List Path :=
  match CommandLine.parse arguments with
  | .error _ => []
  | .ok given =>
    match given.config? with
    | none => []
    | some config =>
      [config.assemblyPath, config.outputPath] ++
        (config.logPath programDirectory started).toOption.toList

end Program

end SurfaceReport
