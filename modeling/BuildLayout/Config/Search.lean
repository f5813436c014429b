import BuildLayout.Config.Load

/-! # The configuration that governs a file

`Configuration.find` looks for a configuration file in the directory of a file and upwards;
`Configuration.resolve` loads what it finds. The file itself need not exist.
-/

namespace BuildLayout.Configuration

/-- The directories in which the configuration of a file is looked for, nearest first. -/
def searchDirs (file : Path) : List Path :=
  match file.normalize.parent? with
  | none => []
  | some dir => dir.ancestors

/-- The configuration file of a directory. -/
def candidateIn (dir : Path) : Path :=
  dir.child Reference.configName

/-- The nearest configuration file at or above the directory of a file. -/
def find (d : Disk) (file : Path) : Except Failure Path :=
  match (searchDirs file).find? fun dir => d.isFile (candidateIn dir) with
  | some dir => .ok (candidateIn dir)
  | none => .error (.configNotFound file.normalize)

/-- The configuration that governs a file. -/
def resolve (d : Disk) (file : Path) : Except Failure Configuration :=
  match find d file with
  | .error f => .error f
  | .ok config => load d config

end BuildLayout.Configuration
