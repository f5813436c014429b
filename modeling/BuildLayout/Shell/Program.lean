import BuildLayout.Shell.Utility.Edit
import BuildLayout.Shell.Utility.Files
import BuildLayout.Shell.Utility.Find
import BuildLayout.Shell.Utility.Lines
import BuildLayout.Shell.Utility.Search
import BuildLayout.Shell.Utility.Values
import BuildLayout.Text.Blank

/-! # Finding programs

The programs of the system stand in a directory of the disk (`systemNodes`), and what they do is known
by their names. `load` says what the system starts for a file: a script names its interpreter in its
first line. `search` looks for a program in the directories of the search path.
-/

namespace BuildLayout.Shell

open Text (Bytes)

/-- The search path that holds where none is set. -/
def defaultPath : String := "/bin:/usr/bin"

/-- The file of a program in the directories of a search path, as a shell looks for it: only files that
may be started count. -/
def whereIs (d : Disk) (path program : String) : Except OsError String :=
  let dirs := (Text.splitOn ':' path.toList).map String.ofList
  dirs.foldl (fun (r : Except OsError String) dir =>
    match r with
    | .ok file => .ok file
    | .error e =>
      let file := if dir = "" then program else dir ++ "/" ++ program
      match d.stat ⟨widen file⟩ with
      | .ok (.file _ true) => .ok file
      | .ok _ => .error .denied
      | .error .denied => .error .denied
      | .error _ => .error e) (.error .noEntry)

/-- Shows where programs are. -/
def which : Utility := fun names => do
  let d ← Run.disk
  let path := (← Run.value? "PATH").getD defaultPath
  names.foldlM (fun status name => do
    let found := if name.toList.contains '/' then
        match d.stat ⟨widen name⟩ with
        | .ok (.file _ true) => some name
        | _ => none
      else (whereIs d path name).toOption
    match found with
    | some file => do
      Run.putLine file
      return status
    | none => return 1) (if names = [] then 1 else 0)

/-- The programs of the system that run no others. -/
def utilities : List (String × Utility) :=
  open Utility in
  [("[", fun args => if args.getLast? = some "]" then test args.dropLast else
      Run.programFails "missing ']'" 2),
    ("basename", basename), ("cat", cat), ("chmod", chmod), ("cp", cp), ("cut", cut),
    ("date", date), ("dirname", dirname), ("echo", echo), ("expr", expr), ("false", fun _ => return 1),
    ("find", find), ("grep", grep), ("head", head), ("id", identity), ("ln", ln), ("ls", ls), ("mkdir", mkdir),
    ("mktemp", mktemp), ("mv", mv), ("nl", nl), ("printenv", printenv), ("printf", printf), ("pwd", pwd),
    ("readlink", readlink), ("realpath", realpath), ("rev", rev), ("rm", rm), ("rmdir", rmdir),
    ("sed", sed), ("seq", seq), ("sleep", sleep), ("sort", sort), ("sync", fun _ => return 0),
    ("tac", tac), ("tail", tail), ("tee", tee), ("test", test), ("touch", touch), ("tr", tr),
    ("true", fun _ => return 0), ("uname", uname), ("uniq", uniq), ("wc", wc), ("which", which), ("whoami", whoami)]

/-- The programs that run scripts. -/
def shells : List String := ["sh", "dash", "bash"]

/-- The programs of the system that run other ones. -/
def runners : List String := shells ++ ["env", "nice", "nohup", "timeout", "xargs"]

/-- The directory in which the programs of the system stand. -/
def systemDir : Location := ["usr", "bin"]

/-- What every disk holds: the programs of the system, which are no scripts, and the directories that
lead to them. -/
def systemNodes : List (Location × Node) :=
  let image : Bytes := [0x7f, 0x45, 0x4c, 0x46]
  [(["usr"], .directory), (systemDir, .directory), (["bin"], .link ⟨"usr/bin"⟩)] ++
    (runners ++ utilities.map (·.1)).map fun name => (systemDir ++ [name], .file image true)

/-- The program of the system that a path leads to. -/
def systemProgram? (d : Disk) (p : Path) : Option String :=
  match d.locate true p with
  | .error _ => none
  | .ok location =>
    (runners ++ utilities.map (·.1)).find? fun name => location = systemDir ++ [name]

/-- The number of bytes after the first two of a file in which the end of its first line is looked for. -/
def maxFirstLine : Nat := 254

/-- What the first line of a script says, without the two characters at its beginning. A newline ends it,
or a byte that is zero, as if such bytes stood after the last one. A line that is too long is cut, unless
that would cut the name of the interpreter. -/
def firstLine? (bytes : Bytes) : Option Bytes :=
  let isBlank (b : UInt8) : Bool := b == 32 || b == 9
  let trimmed (line : Bytes) : Bytes := (line.reverse.dropWhile isBlank).reverse
  let buffer := bytes.take maxFirstLine
  let line := buffer.takeWhile fun b => b ≠ 10 && b ≠ 0
  if line.length = maxFirstLine then
    if (line.dropWhile isBlank).any isBlank then some (trimmed line.dropLast) else none
  else if buffer[line.length]? = some 10 then
    if line.all isBlank then none else some (trimmed line)
  else some line

/-- The interpreter that the first line of a script names, and an argument for it. -/
def interpreter? (bytes : Bytes) : Option (Path × Option String) :=
  match bytes with
  | 35 :: 33 :: bytes =>
    let isBlank (b : UInt8) : Bool := b == 32 || b == 9
    match firstLine? bytes with
    | none => none
    | some line =>
      let line := line.dropWhile isBlank
      let name := line.takeWhile fun b => !isBlank b
      let rest := line.drop name.length
      match Text.decode name, Text.decode (rest.dropWhile isBlank) with
      | .ok name, .ok arg => some (⟨name⟩, if rest = [] then none else some arg)
      | _, _ => none
  | _ => none

/-- What the system starts: one of its programs, the name under which that is called, and arguments. -/
structure Image where
  program : String
  called : String
  args : List String

/-- What is started for a path, under the name `called`; a script may be interpreted by another script,
`depth` times at most. -/
def image? (d : Disk) : (depth : Nat) → Path → (called : String) → List String → Except OsError Image
  | 0, _, _, _ => .error .tooManyLinks
  | depth + 1, p, called, args =>
    match systemProgram? d p with
    | some program => .ok { program, called, args }
    | none =>
      match d.stat p with
      | .error e => .error e
      | .ok (.file bytes true) =>
        match interpreter? bytes with
        | none => .error .badExecutable
        | some (interpreter, arg) =>
          if interpreter.text = "" then .error .denied
          else image? d depth interpreter interpreter.text (arg.toList ++ p.text :: args)
      | .ok _ => .error .denied

/-- How many scripts may interpret each other. -/
def maxInterpreters : Nat := 5

/-- What is started for a path. -/
def load (d : Disk) (p : Path) (called : String) (args : List String) : Except OsError Image :=
  image? d maxInterpreters p called args

/-- Looks for a program in directories. One that may not be started is passed over, and so is a
directory where the program is not; `denied` and `last` say what was met before. -/
def searchIn (d : Disk) (program : String) (args : List String) (denied : Bool) (last : OsError) :
    (dirs : List String) → Except OsError Image
  | [] => .error (if denied then .denied else last)
  | dir :: dirs =>
    let p : Path := if dir = "" then ⟨program⟩ else ⟨dir ++ "/" ++ program⟩
    match load d p program args with
    | .ok image => .ok image
    | .error .denied => searchIn d program args true last dirs
    | .error .noEntry => searchIn d program args denied .noEntry dirs
    | .error .notDirectory => searchIn d program args denied .notDirectory dirs
    | .error e => .error e

/-- What is started for the name of a program: a name with a slash is a path. -/
def search (d : Disk) (path : Option String) (program : String) (args : List String) :
    Except OsError Image :=
  if program.toList.contains '/' then load d ⟨program⟩ program args
  else
    let dirs := (Text.splitOn ':' (path.getD defaultPath).toList).map String.ofList
    searchIn d program args false .noEntry dirs

end BuildLayout.Shell
