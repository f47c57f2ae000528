import SurfaceReport.Proofs.ReportFiles

/-!
# A run spares its input

The assembly, its report and the log of the run are three files, however
the paths are spelled and wherever the log goes: two of them may share a
directory, but no two share a name (`runs_spare_assembly`). Since a run
changes nothing but its log and its report, the assembly is afterwards
what it was.
-/

namespace SurfaceReport

namespace RunConfig

variable (c : RunConfig)

theorem not_same_outputPath : ¬c.assemblyPath.Same c.outputPath :=
  fun h => c.assemblyName_ne_reportName (fileName?_of_same_outputPath h)

variable {c} {programDirectory : Except IoCause Path} {started : Moment} {log : Path}

theorem not_same_logPath (hlog : c.logPath programDirectory started = .ok log) :
    ¬c.assemblyPath.Same log :=
  fun h => c.assemblyName_ne_logName started (fileName?_of_same_logPath hlog h)

theorem outputPath_not_same_logPath (hlog : c.logPath programDirectory started = .ok log) :
    ¬c.outputPath.Same log := by
  intro h
  have hname := fileName?_of_same_logPath hlog h
  rw [fileName?_of_same_outputPath rfl] at hname
  exact reportName_ne_logName c c started (Option.some.inj hname)

theorem parent?_outputPath (c : RunConfig) :
    c.outputPath.parent? = some (c.assemblyPath.parent?.getD ⟨[]⟩) :=
  Path.parent?_join_beside c.plain_reportName c.assemblyPath

/-- There is a log path, unless the log is to lie beside a program that is not found. -/
theorem logPath_cases (c : RunConfig) (programDirectory : Except IoCause Path)
    (started : Moment) :
    (c.logDirectory = none ∧ ∃ cause, programDirectory = .error cause)
      ∨ ∃ log, c.logPath programDirectory started = .ok log := by
  rcases c with ⟨assemblyPath, namespaces, _ | directory⟩
  · cases programDirectory with
    | error cause => exact .inl ⟨rfl, cause, rfl⟩
    | ok directory => exact .inr ⟨_, rfl⟩
  · exact .inr ⟨_, rfl⟩

end RunConfig

theorem Job.find?_assembly (job : Job) (world : World) {place : Location}
    (hplace : world.files.place? job.config.assemblyPath = some place) :
    (job.worldAfter world).files.find? place = world.files.find? place := by
  have hname := FileSystem.getLast?_place? hplace
  -- Places of different names are different, whatever directories they are in.
  refine (job.frame world).elsewhere place ?_ ?_
  · rintro ⟨log, hlog, hlogPlace⟩
    refine job.config.assemblyName_ne_logName world.now.1 (hname.symm.trans ?_)
    rw [FileSystem.getLast?_place? hlogPlace, RunConfig.fileName?_of_same_logPath hlog rfl]
  · intro hreport
    refine job.config.assemblyName_ne_reportName (hname.symm.trans ?_)
    rw [FileSystem.getLast?_place? hreport, RunConfig.fileName?_of_same_outputPath rfl]

/-- **A run never writes over its input.** Whatever the path of the
assembly is and wherever logs go, no two of the three paths of a run are
the same, the report lies in the assembly's directory, and no run changes
what the path of its assembly leads to. -/
theorem runs_spare_assembly (c : RunConfig) (programDirectory : Except IoCause Path)
    (started : Moment) :
    ¬c.assemblyPath.Same c.outputPath
      ∧ c.outputPath.parent? = some (c.assemblyPath.parent?.getD ⟨[]⟩)
      ∧ ((c.logDirectory = none ∧ ∃ cause, programDirectory = .error cause)
        ∨ ∃ log, c.logPath programDirectory started = .ok log
          ∧ ¬c.assemblyPath.Same log ∧ ¬c.outputPath.Same log)
      ∧ ∀ (reader : Reader) (listing : Receiver) (world : World) (place : Location),
        world.files.place? c.assemblyPath = some place →
        ((Job.mk c reader programDirectory listing).worldAfter world).files.find? place
          = world.files.find? place := by
  refine ⟨c.not_same_outputPath, c.parent?_outputPath, ?_, ?_⟩
  · refine (c.logPath_cases programDirectory started).imp_right ?_
    rintro ⟨log, hlog⟩
    exact ⟨log, hlog, RunConfig.not_same_logPath hlog,
      RunConfig.outputPath_not_same_logPath hlog⟩
  · intro reader listing world place hplace
    exact Job.find?_assembly ⟨c, reader, programDirectory, listing⟩ world hplace

/-- An assembly that is called like a report, but for a byte that is no
text, in the directory that logs go to. -/
def disguisedConfig : RunConfig where
  assemblyPath := ⟨(Path.ofText "logs/").bytes ++ 0xFF :: (Path.ofText "Game_Export.xml").bytes⟩
  logDirectory := some (.ofText "logs")

def disguisedWorld : World where
  files := { entries := [([(Path.ofText "logs").bytes], .directory),
    ([(Path.ofText "logs").bytes, 0xFF :: (Path.ofText "Game_Export.xml").bytes],
      .file "MZ".toUTF8)] }

theorem runs_spare_disguised_assembly :
    let job : Job := ⟨disguisedConfig, Run.readerOf (Source.ofModules "Game" []),
      .error .noEntry, {}⟩
    let place : Location :=
      [(Path.ofText "logs").bytes, 0xFF :: (Path.ofText "Game_Export.xml").bytes]
    disguisedConfig.outputPath.shown = "logs/\uFFFDGame_Export_Export.xml"
      ∧ disguisedWorld.files.place? disguisedConfig.assemblyPath = some place
      ∧ (job.worldAfter disguisedWorld).files.find? place = some (.file "MZ".toUTF8) := by
  intro job place
  have hplace : disguisedWorld.files.place? disguisedConfig.assemblyPath = some place := by
    decide +kernel
  have hfind : disguisedWorld.files.find? place = some (.file "MZ".toUTF8) := by decide +kernel
  obtain ⟨-, -, -, hspared⟩ :=
    runs_spare_assembly disguisedConfig (.error .noEntry) default
  refine ⟨by decide +kernel, hplace, ?_⟩
  rw [hspared _ _ disguisedWorld place hplace, hfind]

end SurfaceReport
