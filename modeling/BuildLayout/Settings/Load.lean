import BuildLayout.Disk.Basic
import BuildLayout.Failure
import BuildLayout.Path.Relative
import BuildLayout.Settings.Basic
import BuildLayout.Settings.Environment
import BuildLayout.Settings.Toml.Document

/-! # Loading settings

The settings of a workspace are laid over each other: first the default ones, then those of the
settings file, when there is one, and last those of the environment (`Settings.layers`). What comes
of it has to be settings that make sense (`Settings.check`).
-/

namespace BuildLayout

namespace Settings

/-- Why settings cannot be loaded. The settings file is given as it is shown to the user. -/
inductive LoadFault where
  /-- The settings file is no TOML document. -/
  | malformed (file : Path)
  /-- The settings file is not in UTF-8. -/
  | notText (file : Path)
  /-- A setting has a value of the wrong form. -/
  | unfit (fault : Fault) (file : Path)
  /-- There is no such level of a log. -/
  | unknownLevel (level : String)
  /-- A parameter of the compiler is blank. -/
  | blankParameter
deriving DecidableEq, Repr

/-- The settings file of a workspace. -/
def fileOf (workspace : Path) : Path := workspace.child "airship.toml"

/-! ## Wording -/

/-- Where a value was given, for a settings file. -/
def Origin.describe (file : Path) : Origin → String
  | .default => "default settings"
  | .file => file.text ++ " TOML file"
  | .environment => "`" ++ Environment.namePrefix ++ "` environment variable(s)"

/-- Keys as they are shown to the user, in the way in which they were given. -/
def Origin.showKey (keys : List String) : Origin → String
  | .environment =>
    ".".intercalate (keys.map fun k => String.ofList (k.toList.map Environment.upper))
  | _ => ".".intercalate ("default" :: keys)

/-- The wording of a fault. -/
def Fault.message (file : Path) (f : Fault) : String :=
  let key := if f.key = [] then "" else " for key " ++ Text.quoted (f.origin.showKey f.key)
  f.problem.text ++ key ++ " in " ++ f.origin.describe file

/-- The wording of a reason why settings cannot be loaded. -/
def LoadFault.message : LoadFault → String
  | .malformed file => "Failed to load configuration: TOML parse error in " ++ file.text ++
      " TOML file"
  | .notText file => "Failed to load configuration: stream did not contain valid UTF-8\n in " ++
      file.text ++ " TOML file"
  | .unfit fault file => "Failed to load configuration: " ++ fault.message file
  | .unknownLevel level => "Invalid log level '" ++ level ++ "', must be one of: " ++
      ", ".intercalate levels
  | .blankParameter => "Compiler parameters cannot contain empty arguments"

/-- A reason why settings cannot be loaded, as a failure. -/
def LoadFault.failure (f : LoadFault) : Failure := .settings f.message

/-- How a file is shown to the user: from the current directory on, where that is shorter. -/
def shown (d : Disk) (file : Path) : Path :=
  let cwd := Disk.pathOf d.cwd
  let file := if file.isAbsolute then file else cwd.join file
  match Path.difference false file.components cwd.components with
  | none => file
  | some relative =>
    if relative.length < file.components.length then Path.ofComponents relative else file

/-! ## Layers -/

/-- What a settings file holds. -/
def readFile (d : Disk) (file : Path) : Except LoadFault Value :=
  match d.read file with
  | .error _ => .error (.notText (shown d file))
  | .ok bytes =>
    match Text.decode bytes with
    | .error _ => .error (.notText (shown d file))
    | .ok s =>
      match Toml.parse? s with
      | none => .error (.malformed (shown d file))
      | some v => .ok v

/-- What a workspace says about settings; it need not have a settings file. -/
def fileLayer? (d : Disk) (workspace : Path) : Except LoadFault (Option Value) :=
  if d.isFile (fileOf workspace) then (readFile d (fileOf workspace)).map some else .ok none

/-- The default settings, a file over them and variables over both. -/
def layers (file? : Option Value) (vars : List (String × String)) : Value :=
  let settings := default.toValue
  let settings := match file? with
    | none => settings
    | some v => settings.merge v
  settings.merge (Environment.settings vars)

/-- Settings that make sense: the level of the log is one of the known ones, and no parameter of the
compiler is blank. -/
def check (s : Settings) : Except LoadFault Settings :=
  if s.logging.level ∉ levels then .error (.unknownLevel s.logging.level)
  else if s.command.parameters.any Text.isAllBlank then .error .blankParameter
  else .ok s

/-- The settings of a workspace. -/
def load (d : Disk) (vars : List (String × String)) (workspace : Path) :
    Except LoadFault Settings := do
  let file? ← fileLayer? d workspace
  match shape.read (layers file? vars) with
  | .error fault => .error (.unfit fault (shown d (fileOf workspace)))
  | .ok s => check s

end Settings

end BuildLayout
