import BuildLayout.Disk.Basic

/-! # Changes of a disk

Making directories and files, and removing them. `Disk.createNew` makes an empty file where nothing
stands yet and `Disk.makeDirs` a directory with those above it; neither changes a node that is there
already. `Disk.fill` writes into a file that was just made, which the system may refuse to finish
(`Writing`). `Disk.writeFile` and `Disk.removeTree` do replace and remove.
-/

namespace BuildLayout.Disk

/-- The disk with a node at a location, in place of the one that stood there. -/
def put (d : Disk) (location : Location) (node : Node) : Disk :=
  { d with nodes := d.nodes.filter (·.1 ≠ location) ++ [(location, node)] }

/-- Where a path would make an entry: the directory, and the name in it. Slashes at the end do not
count. An entry that is no name (`.`, `..` or the root) is there already. -/
def entryOf (d : Disk) (p : Path) : Except OsError (Location × String) :=
  if p.text.isEmpty then .error .noEntry
  else if maxPath < Text.nameSize p.text then .error .nameTooLong
  else
    match p.segments.reverse.dropWhile (· = "") with
    | [] => .error .alreadyThere
    | name :: above =>
      match walk d true maxLinks (if p.isAbsolute then [] else d.cwd) (above.reverse ++ [""]) with
      | .error e => .error e
      | .ok dir =>
        if name = "." ∨ name = ".." then .error .alreadyThere
        else if maxName < Text.nameSize name then .error .nameTooLong
        else .ok (dir, name)

/-- Makes one directory. -/
def makeDir (d : Disk) (p : Path) : Except OsError Disk :=
  match d.entryOf p with
  | .error e => .error e
  | .ok (dir, name) =>
    match d.node? (dir ++ [name]) with
    | some _ => .error .alreadyThere
    | none => .ok (d.put (dir ++ [name]) .directory)

/-- Makes the first of the given directories; each of the others holds the one before it and is made
first where it is missing. The disk is given in every case, since some of them may have been made
before another is refused. -/
def makeDirsUp (d : Disk) : List Path → Except OsError Unit × Disk
  | [] => (.error .notEmptyTree, d)
  | p :: above =>
    if p.text.isEmpty then (.ok (), d)
    else
      match d.makeDir p with
      | .ok d => (.ok (), d)
      | .error .noEntry =>
        match makeDirsUp d above with
        | (.error e, d) => (.error e, d)
        | (.ok (), d) =>
          match d.makeDir p with
          | .ok d => (.ok (), d)
          | .error e => if d.isDirectory p then (.ok (), d) else (.error e, d)
      | .error e => if d.isDirectory p then (.ok (), d) else (.error e, d)

/-- Makes a directory and those above it that are missing. -/
def makeDirs (d : Disk) (p : Path) : Except OsError Unit × Disk :=
  d.makeDirsUp p.ancestors

/-- Makes an empty file where nothing stands. Its location is given, too: that is where the file is
written to while it is open. -/
def createNew (d : Disk) (p : Path) : Except OsError (Location × Disk) :=
  match d.entryOf p with
  | .error e => .error e
  | .ok (dir, name) =>
    match d.node? (dir ++ [name]) with
    | some _ => .error .alreadyThere
    | none => .ok (dir ++ [name], d.put (dir ++ [name]) (.file [] false))

/-- How writing goes. A disk does not show whether there is room on it or whether it works. -/
inductive Writing where
  /-- All bytes are written. -/
  | whole
  /-- After some bytes the system refuses to write more. -/
  | cut (written : Nat) (reason : OsError)
deriving DecidableEq, Repr

/-- Writes bytes into the empty file that was made at a location. -/
def fill (d : Disk) (location : Location) (bytes : Text.Bytes) :
    Writing → Except OsError Unit × Disk
  | .whole => (.ok (), d.put location (.file bytes false))
  | .cut written reason => (.error reason, d.put location (.file (bytes.take written) false))

/-- Where a file is made for a path that leads nowhere: a link at its end is followed. -/
def freshEntry (d : Disk) : (links : Nat) → Path → Except OsError Location
  | 0, _ => .error .tooManyLinks
  | links + 1, p =>
    match d.entryOf p with
    | .error e => .error e
    | .ok (dir, name) =>
      match d.node? (dir ++ [name]) with
      | some (.link target) => freshEntry d links ((pathOf dir).join target)
      | _ => if p.text.endsWith "/" then .error .isDirectory else .ok (dir ++ [name])

/-- Writes a file. One that stands there gets other contents and stays executable if it was. -/
def writeFile (d : Disk) (p : Path) (bytes : Text.Bytes) (executable : Bool) :
    Except OsError Disk :=
  match d.locate true p with
  | .ok location =>
    match d.node? location with
    | some .directory => .error .isDirectory
    | some (.file _ before) => .ok (d.put location (.file bytes (before || executable)))
    | _ => .ok (d.put location (.file bytes executable))
  | .error .noEntry =>
    match d.freshEntry (maxLinks + 1) p with
    | .error e => .error e
    | .ok location => .ok (d.put location (.file bytes executable))
  | .error e => .error e

/-- Makes a symbolic link where nothing stands. -/
def makeLink (d : Disk) (p target : Path) : Except OsError Disk :=
  match d.entryOf p with
  | .error e => .error e
  | .ok (dir, name) =>
    match d.node? (dir ++ [name]) with
    | some _ => .error .alreadyThere
    | none => .ok (d.put (dir ++ [name]) (.link target))

/-- Removes what stands at a path, a link itself, a directory with all below it. -/
def removeTree (d : Disk) (p : Path) : Except OsError Disk :=
  match d.locate false p with
  | .error e => .error e
  | .ok location => .ok { d with nodes := d.nodes.filter fun n => !location.isPrefixOf n.1 }

/-- The locations strictly below a directory, as names from there on, with their nodes. -/
def below (d : Disk) (dir : Location) : List (Location × Node) :=
  (d.nodes.filter fun n => dir.isPrefixOf n.1 && n.1 ≠ dir).map fun n =>
    (n.1.drop dir.length, n.2)

end BuildLayout.Disk
