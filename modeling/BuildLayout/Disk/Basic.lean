import BuildLayout.Path.Basic
import BuildLayout.Text.Utf8

/-! # Disks

A `Disk` is a tree of files, directories and symbolic links, each at a `Location`: its names from
the root on. `Disk.locate` follows a path through it the way an operating system does, segment by
segment: every segment but the last has to lead to a directory, `..` goes to the directory above the
one reached, and links are followed (`maxLinks` of them at most). The queries `isFile`, `read` and
so on look at what stands at the location that is found.

A disk knows nothing of permissions: every directory may be searched and every regular file read, and
no lookup ends in `OsError.denied`, which only the start of a program does.
-/

namespace BuildLayout

/-- Why an operation on a disk is refused. -/
inductive OsError where
  | noEntry
  | deviceFault
  | badExecutable
  | denied
  | alreadyThere
  | notDirectory
  | isDirectory
  | noSpace
  | nameTooLong
  | notEmptyTree
  | tooManyLinks
deriving DecidableEq, Repr

/-- The wording of an error, with its number. -/
def OsError.text : OsError → String
  | .noEntry => "No such file or directory (os error 2)"
  | .deviceFault => "Input/output error (os error 5)"
  | .badExecutable => "Exec format error (os error 8)"
  | .denied => "Permission denied (os error 13)"
  | .alreadyThere => "File exists (os error 17)"
  | .notDirectory => "Not a directory (os error 20)"
  | .isDirectory => "Is a directory (os error 21)"
  | .noSpace => "No space left on device (os error 28)"
  | .nameTooLong => "File name too long (os error 36)"
  | .notEmptyTree => "failed to create whole tree"
  | .tooManyLinks => "Too many levels of symbolic links (os error 40)"

/-- The names from the root to a place on a disk. -/
abbrev Location := List String

/-- What stands at a location. -/
inductive Node where
  | file (bytes : Text.Bytes) (executable : Bool)
  | directory
  | link (target : Path)
deriving DecidableEq, Repr

/-- A tree of nodes, and the directory that relative paths are taken from. -/
structure Disk where
  nodes : List (Location × Node)
  cwd : Location
deriving DecidableEq, Repr

namespace Disk

/-- The absolute path of a location. -/
def pathOf : Location → Path
  | [] => ⟨"/"⟩
  | location => Path.ofSegments ("" :: location)

/-- The node at a location; the root is always a directory. -/
def node? (d : Disk) (location : Location) : Option Node :=
  if location = [] then some .directory else d.nodes.lookup location

/-- The longest name that a directory can hold, in bytes. -/
def maxName : Nat := 255

/-- The longest path that is looked up, in bytes. -/
def maxPath : Nat := 4095

/-- The number of links that are followed for one path. -/
def maxLinks : Nat := 40

/-- The location that segments lead to from the directory `here`. A link at the very end is
followed when `followLast` says so. -/
def walk (d : Disk) (followLast : Bool) (links : Nat) (here : Location) (segments : List String) :
    Except OsError Location :=
  match segments with
  | [] => .ok here
  | s :: rest =>
    if s = "" ∨ s = "." then walk d followLast links here rest
    else if s = ".." then walk d followLast links here.dropLast rest
    else if maxName < Text.nameSize s then .error .nameTooLong
    else
      match d.node? (here ++ [s]) with
      | none => .error .noEntry
      | some .directory => walk d followLast links (here ++ [s]) rest
      | some (.file _ _) => if rest = [] then .ok (here ++ [s]) else .error .notDirectory
      | some (.link target) =>
        if rest = [] ∧ followLast = false then .ok (here ++ [s])
        else
          match links with
          | 0 => .error .tooManyLinks
          | links + 1 =>
            walk d followLast links (if target.isAbsolute then [] else here)
              (target.segments ++ rest)
termination_by (links, segments.length)

/-- The location that a path leads to. -/
def locate (d : Disk) (followLast : Bool) (p : Path) : Except OsError Location :=
  if p.text.isEmpty then .error .noEntry
  else if maxPath < Text.nameSize p.text then .error .nameTooLong
  else walk d followLast maxLinks (if p.isAbsolute then [] else d.cwd) p.segments

/-- The node that a path leads to, links followed. -/
def stat (d : Disk) (p : Path) : Except OsError Node :=
  match d.locate true p with
  | .error e => .error e
  | .ok location =>
    match d.node? location with
    | none => .error .noEntry
    | some node => .ok node

/-- A regular file is there. -/
def isFile (d : Disk) (p : Path) : Bool :=
  match d.stat p with
  | .ok (.file _ _) => true
  | _ => false

/-- A directory is there. -/
def isDirectory (d : Disk) (p : Path) : Bool :=
  match d.stat p with
  | .ok .directory => true
  | _ => false

/-- Something is there. -/
def holds (d : Disk) (p : Path) : Bool :=
  match d.stat p with
  | .ok _ => true
  | .error _ => false

/-- The contents of the regular file at a location. -/
def bytesAt? (d : Disk) (location : Location) : Option Text.Bytes :=
  match d.node? location with
  | some (.file bytes _) => some bytes
  | _ => none

/-- The contents of the file that a path leads to. -/
def read (d : Disk) (p : Path) : Except OsError Text.Bytes :=
  match d.stat p with
  | .error e => .error e
  | .ok (.file bytes _) => .ok bytes
  | .ok _ => .error .isDirectory

end Disk

end BuildLayout
