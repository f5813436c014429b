import BuildLayout.Component.Name
import BuildLayout.Disk.Change

/-! # New components

`Component.create` writes the script of a new component: a file with the component's name that holds
an empty class. Directories that are missing are made; a file that is there is never touched. The file
is made first and written to then, so it is left behind where writing is refused.
-/

namespace BuildLayout

/-- What the class of a component extends. -/
inductive ComponentKind where
  | component
  | singleton
deriving DecidableEq, Repr

namespace ComponentKind

/-- The name of a kind. -/
def name : ComponentKind → String
  | .component => "component"
  | .singleton => "singleton"

/-- The class that is extended. -/
def baseClass : ComponentKind → String
  | .component => "AirshipBehaviour"
  | .singleton => "AirshipSingleton"

end ComponentKind

/-- A component that was written. -/
structure CreatedComponent where
  path : Path
  className : String
  /-- The text under which the class is shown. -/
  displayName : String
  kind : ComponentKind
deriving DecidableEq, Repr

namespace Component

/-- Where components go when no directory is given. -/
def defaultDir (workspace : Path) : Path :=
  (workspace.child "src").child "Shared"

/-- The script of an empty class. -/
def script (className : String) (kind : ComponentKind) : String :=
  "export default class " ++ className ++ " extends " ++ kind.baseClass ++ " \x7b\n" ++
    "\toverride Start(): void \x7b\n" ++
    "\t\t\n" ++
    "\t\x7d\n" ++
    "\n" ++
    "\toverride OnDestroy(): void \x7b\x7d\n" ++
    "\x7d\n"

/-- The file of a component in a directory. -/
def fileIn (dir : Path) (name : String) : Path :=
  dir.child (name ++ ".ts")

/-- Writes the script of a component into a directory. The disk is given in every case, since
directories may have been made before the file is refused, and the file before its text is. -/
def create (d : Disk) (dir : Path) (name : String) (kind : ComponentKind)
    (writing : Disk.Writing := .whole) : Except Failure CreatedComponent × Disk :=
  match validateName name with
  | .error f => (.error f, d)
  | .ok () =>
    match d.makeDirs dir with
    | (.error e, d) => (.error (.io (some dir) e.text), d)
    | (.ok (), d) =>
      let path := fileIn dir name
      let className := className name
      match d.createNew path with
      | .error .alreadyThere => (.error (.alreadyExists path), d)
      | .error e => (.error (.io (some path) e.text), d)
      | .ok (location, d) =>
        match d.fill location (Text.encode (script className kind)) writing with
        | (.error e, d) => (.error (.io (some path) e.text), d)
        | (.ok (), d) => (.ok ⟨path, className, label className, kind⟩, d)

end Component

end BuildLayout
