import BuildLayout.Shell.Utility.Basic

/-! # Programs for files

Programs that show, make, copy, move and remove files and directories.
-/

namespace BuildLayout.Shell.Utility

open Text (Bytes)

/-- How a message quotes a name. -/
def quote (s : String) : String := "'" ++ s ++ "'"

/-- The last name of a path. -/
def lastName (s : String) : String :=
  let cs := (s.toList.reverse.dropWhile (· = '/')).reverse
  String.ofList (cs.reverse.takeWhile (· ≠ '/')).reverse

/-- What stands at a path, a link itself. -/
def nodeAt (d : Disk) (path : String) : Except OsError (Location × Node) :=
  match d.locate false ⟨widen path⟩ with
  | .error e => .error e
  | .ok location =>
    match d.node? location with
    | some node => .ok (location, node)
    | none => .error .noEntry

/-- Changes the disk, or complains. -/
def change (message : String) (result : Except OsError Disk) : Run Nat :=
  match result with
  | .ok d => do
    Run.setDisk d
    return 0
  | .error e => Run.programFails (message ++ ": " ++ shortText e) 1

/-- A character in a form that can be seen. -/
def visible (tabs others : Bool) (c : Char) : List Char :=
  let control (n : Nat) : List Char :=
    if n < 32 then ['^', Char.ofNat (n + 64)] else if n = 127 then ['^', '?'] else [Char.ofNat n]
  if c = '\t' then (if tabs then ['^', 'I'] else ['\t'])
  else if !others || c = '\n' then [c]
  else if 128 ≤ c.toNat then ['M', '-'] ++ control (c.toNat - 128)
  else control c.toNat

/-- Prints files one after the other. -/
def cat : Utility := fun args =>
  let u : Usage := { flags := "nbsEAvTetu" }
  withOptions u args 1 fun given => do
    let numbered := has given 'n' || has given 'b'
    let tabs := "TtA".toList.any (has given)
    let others := "vetA".toList.any (has given)
    let ends := "EeA".toList.any (has given)
    if numbered || has given 's' || tabs || others || ends then
      let (bytes, status) ← gathered id given.2
      let whole := bytes.getLast? == some 10
      let lines := linesOf bytes
      let (_, _, text) := lines.foldl (fun (n, before, text) line =>
        let skipped := has given 's' && before && line = ""
        let counted := !has given 'b' || line ≠ ""
        let number := if numbered && counted then padLeft 6 (toString n) ++ "\t" else ""
        let more := if skipped then "" else
          let line := String.ofList (line.toList.flatMap (visible tabs others))
          number ++ line ++ (if ends then "$" else "") ++ "\n"
        (if skipped || !counted then n else n + 1, decide (line = ""), text ++ more)) (1, false, "")
      let dropped := if ends then 2 else 1
      Run.put 1 (if whole then text else String.ofList (text.toList.take (text.length - dropped)))
      return status
    else
      withFiles id given.2 fun _ bytes => do
        let _ ← Run.write 1 bytes
        return 0

/-- The names in a directory, in order. -/
def namesIn (d : Disk) (location : Location) (hidden : Bool) : List String :=
  let names := (d.below location).filterMap fun
    | ([name], _) => if hidden || !name.startsWith "." then some (narrow name) else none
    | _ => none
  names.mergeSort fun a b => !(b < a)

/-- Shows the names in directories. -/
def ls : Utility := fun args =>
  let u : Usage :=
    { flags := "1aAdrRlhtpFiSnog", long := [("all", 'a'), ("almost-all", 'A'), ("directory", 'd')] }
  withOptions u args 2 fun given => do
    let d ← Run.disk
    let ordered (names : List String) : List String :=
      if has given 'r' then names.reverse else names
    let names (location : Location) : List String :=
      ordered ((if has given 'a' then [".", ".."] else []) ++
        namesIn d location (has given 'a' || has given 'A'))
    let marked (location : Location) (name : String) : String :=
      let mark := match d.node? (location ++ [widen name]) with
        | some .directory => if has given 'F' || has given 'p' then "/" else ""
        | some (.link _) => if has given 'F' then "@" else ""
        | some (.file _ executable) => if has given 'F' && executable then "*" else ""
        | none => ""
      name ++ mark
    let shown (location : Location) : Run Unit := do
      if has given 'l' then Run.putLine "total 0"
      (names location).forM fun name => Run.putLine (marked location name)
    let paths := if given.2 = [] then ["."] else given.2
    let found ← paths.filterMapM fun p => do
      match d.locate true ⟨widen p⟩ with
      | .ok location => return some (p, location, d.node? location == some .directory)
      | .error e =>
        let _ ← Run.programFails ("cannot access " ++ quote p ++ ": " ++ shortText e) 2
        return none
    let isListed (f : String × Location × Bool) : Bool := f.2.2 && !has given 'd'
    let files := ordered ((found.filter (!isListed ·)).map (·.1) |>.mergeSort fun a b => !(b < a))
    let dirs := (found.filter isListed).mergeSort fun a b => !(b.1 < a.1)
    files.forM Run.putLine
    let dirs := if has given 'R' then dirs.flatMap fun (p, location, isDir) =>
        let inside := (d.below location).filterMap fun
          | (names, .directory) => if has given 'a' || has given 'A' || names.all (!·.startsWith ".") then
              some (p ++ "/" ++ "/".intercalate (names.map narrow), location ++ names, true) else none
          | _ => none
        (p, location, isDir) :: (inside.mergeSort fun a b => isBefore a.2.1 b.2.1)
      else dirs
    let headed := 1 < paths.length || has given 'R'
    let _ ← dirs.foldlM (fun first f => do
      if !first then Run.put 1 "\n"
      if headed then Run.putLine (f.1 ++ ":")
      shown f.2.1
      return false) files.isEmpty
    return if found.length < paths.length then 2 else 0

/-- Makes the directories of a path that are missing, from the first on. -/
def makeAll (path : String) : (fuel : Nat) → (done : String) → List String → Run Nat
  | 0, _, _ => return 0
  | _, _, [] => return 0
  | fuel + 1, done, name :: names => do
    let here := done ++ name
    let fails (e : OsError) : Run Nat :=
      Run.programFails ("cannot create directory " ++ quote here ++ ": " ++ shortText e) 1
    if name = "" then makeAll path fuel (done ++ "/") names
    else
      let d ← Run.disk
      match d.stat ⟨widen here⟩ with
      | .ok .directory => makeAll path fuel (here ++ "/") names
      | .ok _ => fails (if names.all (· = "") then .alreadyThere else .notDirectory)
      | .error _ =>
        match d.makeDir ⟨widen here⟩ with
        | .error e => fails e
        | .ok d => do
          Run.setDisk d
          makeAll path fuel (here ++ "/") names

/-- Makes directories. -/
def mkdir : Utility := fun args =>
  let u : Usage := { flags := "pv", valued := "m", long := [("parents", 'p'), ("mode", 'm')] }
  withOptions u args 1 fun given => do
    if given.2 = [] then misused "missing operand" 1
    else
      forEach given.2 fun p => do
        if has given 'p' then
          let names := (Text.splitOn '/' p.toList).map String.ofList
          makeAll p (names.length + 1) "" names
        else
          change ("cannot create directory " ++ quote p) ((← Run.disk).makeDir ⟨widen p⟩)

/-- Removes empty directories. -/
def rmdir : Utility := fun args =>
  withOptions { flags := "pv" } args 1 fun given => do
    if given.2 = [] then misused "missing operand" 1
    else
      forEach given.2 fun p => do
        let fails (text : String) : Run Nat :=
          Run.programFails ("failed to remove " ++ quote p ++ ": " ++ text) 1
        let d ← Run.disk
        match nodeAt d p with
        | .error e => fails (shortText e)
        | .ok (location, .directory) =>
          if d.below location ≠ [] then fails "Directory not empty"
          else change ("failed to remove " ++ quote p) (d.removeTree ⟨widen p⟩)
        | .ok _ => fails "Not a directory"

/-- Makes empty files where nothing stands. -/
def touch : Utility := fun args =>
  withOptions { flags := "acmfh", valued := "drt" } args 1 fun given => do
    if given.2 = [] then misused "missing file operand" 1
    else
      forEach given.2 fun p => do
        let d ← Run.disk
        if d.holds ⟨widen p⟩ || has given 'c' then return 0
        else change ("cannot touch " ++ quote p) (d.writeFile ⟨widen p⟩ [] false)

/-- Removes files, and directories where that is asked for. -/
def rm : Utility := fun args =>
  let u : Usage :=
    { flags := "rRfivd", long := [("recursive", 'r'), ("force", 'f'), ("verbose", 'v')] }
  withOptions u args 1 fun given => do
    let force := has given 'f'
    let deep := has given 'r' || has given 'R'
    if given.2 = [] then
      if force then return 0 else misused "missing operand" 1
    else
      forEach given.2 fun p => do
        let fails (text : String) : Run Nat :=
          Run.programFails ("cannot remove " ++ quote p ++ ": " ++ text) 1
        let d ← Run.disk
        let name := lastName p
        match nodeAt d p with
        | .error e =>
          if force && (e = .noEntry || e = .notDirectory) then return 0 else fails (shortText e)
        | .ok (_, .directory) =>
          if !deep then fails "Is a directory"
          else if name = "." ∨ name = ".." then
            Run.programFails
              ("refusing to remove '.' or '..' directory: skipping " ++ quote p) 1
          else change ("cannot remove " ++ quote p) (d.removeTree ⟨widen p⟩)
        | .ok _ => change ("cannot remove " ++ quote p) (d.removeTree ⟨widen p⟩)

/-- The nodes at a location and below it, with the names from there on. -/
def subtree (d : Disk) (location : Location) : List (Location × Node) :=
  ((d.node? location).map fun node => ([], node)).toList ++ d.below location

/-- Puts nodes at a location and below it. -/
def graft (d : Disk) (location : Location) (nodes : List (Location × Node)) : Disk :=
  nodes.foldl (fun d (names, node) =>
    if node = .directory ∧ d.node? (location ++ names) = some .directory then d
    else d.put (location ++ names) node) d

/-- The path of a file in a directory, or the path itself when there is no directory. -/
def within (d : Disk) (path file : String) : String :=
  if d.isDirectory ⟨widen path⟩ then
    if path.endsWith "/" then path ++ lastName file else path ++ "/" ++ lastName file
  else path

/-- Copies or moves files to the last of the arguments. -/
def toTarget (verb : String) (args : List String) (run : String → String → Run Nat) :
    Run Nat := do
  match args.reverse with
  | [] => misused ("missing " ++ verb) 1
  | [one] => misused ("missing destination file operand after " ++ quote one) 1
  | target :: files =>
    let d ← Run.disk
    if 1 < files.length ∧ !d.isDirectory ⟨widen target⟩ then
      Run.programFails ("target " ++ quote target ++ ": " ++
        (if d.holds ⟨widen target⟩ then "Not a directory" else "No such file or directory")) 1
    else forEach files.reverse fun file => do run file (within (← Run.disk) target file)

/-- Copies files, and directories where that is asked for. -/
def cp : Utility := fun args =>
  let u : Usage :=
    { flags := "rRafpvnTdLPu", long := [("recursive", 'r'), ("archive", 'a'), ("force", 'f')] }
  withOptions u args 1 fun given =>
    toTarget "file operand" given.2 fun file target => do
      let d ← Run.disk
      let deep := has given 'r' || has given 'R' || has given 'a'
      let found := if deep then nodeAt d file else
        (d.locate true ⟨widen file⟩).bind fun location =>
          match d.node? location with
          | some node => .ok (location, node)
          | none => .error .noEntry
      let fails (e : OsError) : Run Nat :=
        Run.programFails ("cannot create regular file " ++ quote target ++ ": " ++ shortText e) 1
      match found with
      | .error e => Run.programFails ("cannot stat " ++ quote file ++ ": " ++ shortText e) 1
      | .ok (location, .directory) =>
        if !deep then
          Run.programFails ("-r not specified; omitting directory " ++ quote file) 1
        else
          match d.entryOf ⟨widen target⟩ with
          | .error e =>
            Run.programFails ("cannot create directory " ++ quote target ++ ": " ++ shortText e) 1
          | .ok (dir, name) =>
            Run.setDisk (graft d (dir ++ [name]) (subtree d location))
            return 0
      | .ok (location, .link aim) =>
        match d.makeLink ⟨widen target⟩ aim with
        | .ok d =>
          Run.setDisk d
          return 0
        | .error e => if d.bytesAt? location = none then fails e else return 0
      | .ok (location, .file bytes executable) =>
        if has given 'n' && d.holds ⟨widen target⟩ then return 0
        else
          match d.locate true ⟨widen target⟩ with
          | .ok there =>
            if there = location then
              Run.programFails (quote file ++ " and " ++ quote target ++ " are the same file") 1
            else
              match d.writeFile ⟨widen target⟩ bytes false with
              | .ok d =>
                Run.setDisk d
                return 0
              | .error e => fails e
          | .error _ =>
            match d.writeFile ⟨widen target⟩ bytes executable with
            | .ok d =>
              Run.setDisk d
              return 0
            | .error e => fails e

/-- Moves files and directories. -/
def mv : Utility := fun args =>
  withOptions { flags := "fnvTu" } args 1 fun given =>
    toTarget "file operand" given.2 fun file target => do
      let d ← Run.disk
      match nodeAt d file with
      | .error e => Run.programFails ("cannot stat " ++ quote file ++ ": " ++ shortText e) 1
      | .ok (location, node) =>
        let fails (text : String) : Run Nat :=
          Run.programFails
            ("cannot move " ++ quote file ++ " to " ++ quote target ++ ": " ++ text) 1
        match d.entryOf ⟨widen target⟩ with
        | .error e => fails (shortText e)
        | .ok (dir, name) =>
          let there := dir ++ [name]
          if there = location then
            Run.programFails (quote file ++ " and " ++ quote target ++ " are the same file") 1
          else if location.isPrefixOf there then
            Run.programFails ("cannot move " ++ quote file ++ " to a subdirectory of itself, " ++
              quote target) 1
          else if has given 'n' ∧ (d.node? there).isSome then return 0
          else
            match node, d.node? there with
            | .directory, some (.file _ _) =>
              Run.programFails ("cannot overwrite non-directory " ++ quote target ++
                " with directory " ++ quote file) 1
            | .directory, some .directory =>
              if d.below there ≠ [] then fails "Directory not empty"
              else moved d location there
            | _, some .directory =>
              Run.programFails ("cannot overwrite directory " ++ quote target ++
                " with non-directory") 1
            | _, _ => moved d location there
where
  /-- Moves what stands at a location to another one. -/
  moved (d : Disk) (location there : Location) : Run Nat := do
    let nodes := subtree d location
    let d : Disk := { d with nodes := d.nodes.filter fun n => !location.isPrefixOf n.1 }
    Run.setDisk (graft d there nodes)
    return 0

/-- Makes links. -/
def ln : Utility := fun args =>
  let u : Usage := { flags := "sfnvrT", long := [("symbolic", 's'), ("force", 'f')] }
  withOptions u args 1 fun given => do
    let kind := if has given 's' then "symbolic" else "hard"
    match given.2 with
    | [] => misused "missing file operand" 1
    | [one] => make given kind one (lastName one)
    | files =>
      let target := files.getLast?.getD ""
      forEach files.dropLast fun file => do make given kind file (within (← Run.disk) target file)
where
  /-- Makes one link. -/
  make (given : Given) (kind file target : String) : Run Nat := do
    let d ← Run.disk
    let d := if has given 'f' then
      match d.removeTree ⟨widen target⟩ with
      | .ok d => d
      | .error _ => d
      else d
    let message := "failed to create " ++ kind ++ " link " ++ quote target
    if has given 's' then change message (d.makeLink ⟨widen target⟩ ⟨widen file⟩)
    else
      match nodeAt d file with
      | .error e => Run.programFails ("failed to access " ++ quote file ++ ": " ++ shortText e) 1
      | .ok (_, .directory) =>
        Run.programFails (file ++ ": hard link not allowed for directory") 1
      | .ok (_, node) =>
        match d.entryOf ⟨widen target⟩ with
        | .error e => Run.programFails (message ++ ": " ++ shortText e) 1
        | .ok (dir, name) =>
          if (d.node? (dir ++ [name])).isSome then
            Run.programFails (message ++ ": File exists") 1
          else
            Run.setDisk (d.put (dir ++ [name]) node)
            return 0

/-- Whether a file is executable under a mode, if that is a mode. -/
def executableUnder? (mode : String) (before : Bool) : Option Bool :=
  let cs := mode.toList
  if cs ≠ [] ∧ cs.all fun c => '0' ≤ c && c ≤ '7' then
    some ((cs.reverse.take 3).any fun c => (c.toNat - 0x30) % 2 = 1)
  else
    (Text.splitOn ',' cs).foldl (fun (now : Option Bool) clause =>
      now.bind fun now =>
        let who := clause.takeWhile "ugoa".toList.contains
        match clause.drop who.length with
        | '+' :: what => some (now || what.contains 'x' || what.contains 'X' && before)
        | '-' :: what => some (now && !what.contains 'x')
        | '=' :: what => some (what.contains 'x')
        | _ => none) (some before)

/-- Makes files executable, or takes that from them. -/
def chmod : Utility := fun args => do
  let deep := args.head? = some "-R"
  let args := if deep then args.drop 1 else args
  match args with
  | [] => misused "missing operand" 1
  | [mode] => misused ("missing operand after " ++ quote mode) 1
  | mode :: files =>
    if executableUnder? mode false = none then
      misused ("invalid mode: " ++ quote mode) 1
    else
      forEach files fun p => do
        let d ← Run.disk
        match d.locate true ⟨widen p⟩ with
        | .error e =>
          Run.programFails ("cannot access " ++ quote p ++ ": " ++ shortText e) 1
        | .ok location =>
          let nodes := d.nodes.map fun (l, node) =>
            if l = location ∨ (deep ∧ location.isPrefixOf l) then
              match node with
              | .file bytes x => (l, .file bytes ((executableUnder? mode x).getD x))
              | node => (l, node)
            else (l, node)
          Run.setDisk { d with nodes }
          return 0

/-- Makes a file or a directory with a name that nothing has. -/
def mktemp : Utility := fun args =>
  withOptions { flags := "dqtu", valued := "p" } args 1 fun given => do
    let d ← Run.disk
    let dir := (valueOf? given 'p').getD "/tmp"
    let start := match given.2.head? with
      | some model => String.ofList ((model.toList.reverse.dropWhile (· = 'X')).reverse)
      | none => dir ++ "/tmp."
    let names := (List.range (d.nodes.length + 1)).map fun n =>
      let digits := toString n
      start ++ String.ofList (List.replicate (10 - digits.length) 'A') ++ digits
    match names.find? fun name => !d.holds ⟨widen name⟩ with
    | none => return 1
    | some name => do
      let status ← change ("failed to create file via template " ++ quote start)
        (if has given 'd' then d.makeDir ⟨widen name⟩
          else (d.createNew ⟨widen name⟩).map Prod.snd)
      if status = 0 then Run.putLine name
      return status

/-- Shows where links lead. -/
def readlink : Utility := fun args =>
  withOptions { flags := "femnqsvz" } args 1 fun given => do
    if given.2 = [] then misused "missing operand" 1
    else
      forEach given.2 fun p => do
        let d ← Run.disk
        let line (s : String) : Run Nat := do
          Run.put 1 (s ++ (if has given 'n' then "" else "\n"))
          return 0
        if has given 'f' || has given 'e' || has given 'm' then
          match d.locate true ⟨widen p⟩ with
          | .ok location => line (narrow (Disk.pathOf location).text)
          | .error _ =>
            match d.entryOf ⟨widen p⟩ with
            | .ok (dir, name) =>
              if has given 'e' then return 1
              else line (narrow (Disk.pathOf (dir ++ [name])).text)
            | .error _ => return 1
        else
          match nodeAt d p with
          | .ok (_, .link target) => line (narrow target.text)
          | _ => return 1

/-- Shows paths without links on the way. -/
def realpath : Utility := fun args =>
  withOptions { flags := "emqsz" } args 1 fun given => do
    if given.2 = [] then misused "missing operand" 1
    else
      forEach given.2 fun p => do
        let d ← Run.disk
        match d.locate true ⟨widen p⟩ with
        | .ok location => do
          Run.putLine (narrow (Disk.pathOf location).text)
          return 0
        | .error e =>
          match d.entryOf ⟨widen p⟩ with
          | .ok (dir, name) =>
            if has given 'e' then Run.programFails (p ++ ": " ++ shortText e) 1
            else do
              Run.putLine (narrow (Disk.pathOf (dir ++ [name])).text)
              return 0
          | .error e => Run.programFails (p ++ ": " ++ shortText e) 1

end BuildLayout.Shell.Utility
