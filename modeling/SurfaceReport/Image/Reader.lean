import SurfaceReport.Export
import SurfaceReport.Image.Assembly

/-!
# The reader of images for a run

Opening a file leaves a diagnostic, whatever comes of it.
-/

namespace SurfaceReport

namespace Image

def openingNote (path : Path) : String :=
  "loading " ++ path.shown ++ " through dotscope"

def openAssembly (files : FileSystem) (path : Path) : Except Fault Source :=
  match files.read path with
  | .error cause => .error (ReadFault.other cause.message).toFault
  | .ok file => readAssembly file

def reader : Reader := fun files path => (openAssembly files path, [openingNote path])

end Image

end SurfaceReport
