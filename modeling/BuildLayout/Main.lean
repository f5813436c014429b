import BuildLayout.CommandLine.Run

/-! # The program

The program takes a picture of the part of the disk that its arguments are about, lets
`CommandLine.run` work on the picture, writes what is new in it back, and prints what comes of it.
-/

namespace BuildLayout.Program

/-- How the program is used. -/
def usage : String :=
  "Tooling for Airship TypeScript projects\n\n" ++
  "Usage: airship [OPTIONS] <COMMAND>\n\n" ++
  "Commands:\n" ++
  "  resolve <FILE>                 Show the merged compiler options governing a file\n" ++
  "  in-src <FILE>                  Check whether a file lies inside the source roots\n" ++
  "  output <FILE>                  Find the compiled output of a source file\n" ++
  "      --target <TARGET>          editor, server or client\n" ++
  "  create-component <NAME>        Create a new component script\n" ++
  "      --dir <DIR>                Directory to create the script in\n" ++
  "      --singleton                Extend AirshipSingleton\n" ++
  "  compile                        Run the compiler for the workspace\n\n" ++
  "Options:\n" ++
  "  --workspace <DIR>              Workspace directory\n" ++
  "  --format <FORMAT>              pretty or compact\n" ++
  "  -h, --help                     Print help\n" ++
  "  -V, --version                  Print version\n"

/-- The location that the text of an absolute path leads to when no link is on the way. -/
def locationOf (text : String) : Location :=
  (Path.normalize ⟨text⟩).components.filterMap fun
    | .name s => some s
    | _ => none

/-- A location and those above it. -/
def upwards (location : Location) : List Location :=
  (List.range (location.length + 1)).map location.take

/-- The largest file that is read, in bytes. -/
def maxRead : Nat := 1048576

/-- A file begins like a script, which is taken to be executable. -/
def isScript (bytes : Text.Bytes) : Bool := bytes.take 2 == [35, 33]

/-- What stands in a directory, one level deep or all of it; what cannot be read is left out. -/
partial def readDirectory (deep : Location → Bool) (location : Location) :
    IO (List (Location × Node)) := do
  let dir := (← IO.currentDir) / (Disk.pathOf location).text
  let entries ← try dir.readDir catch _ => pure #[]
  let mut nodes := []
  for entry in entries do
    let here := location ++ [entry.fileName]
    let data? : Option IO.FS.Metadata ←
      try pure (some (← entry.path.symlinkMetadata)) catch _ => pure none
    if let some data := data? then
      match data.type with
      | .dir =>
        nodes := nodes ++ [(here, .directory)]
        if deep here then nodes := nodes ++ (← readDirectory deep here)
      | .file =>
        let bytes : Text.Bytes ← try
            if data.byteSize.toNat ≤ maxRead then
              pure (← IO.FS.readBinFile entry.path).data.toList
            else pure []
          catch _ => pure []
        nodes := nodes ++ [(here, .file bytes (isScript bytes))]
      | .symlink =>
        let target? ← try pure (some (← IO.FS.realPath entry.path).toString) catch _ => pure none
        if let some target := target? then
          nodes := nodes ++ [(here, .link ⟨target⟩)]
      | .other => pure ()
  return nodes

/-- A picture of the disk: all below the current directory, and what stands in the directories above
it and above the paths that are named, with the packages installed there; the programs of the system are
known without reading them. -/
def picture (args : List String) : IO Disk := do
  let cwdPath : Path := ⟨(← IO.currentDir).toString⟩
  let cwd := locationOf cwdPath.text
  let named := args.map fun a => locationOf (cwdPath.resolveAgainst ⟨a⟩).text
  let dirs := (cwd :: named).flatMap upwards
  let isDeep (location : Location) : Bool :=
    cwd.isPrefixOf location || location.contains "node_modules"
  let mut nodes : List (Location × Node) := []
  for dir in dirs.eraseDups do
    for node in (dir, Node.directory) :: (← readDirectory isDeep dir) do
      if (nodes.lookup node.1).isNone then
        nodes := nodes ++ [node]
  let system := Shell.systemNodes.filter fun n => (nodes.lookup n.1).isNone
  return ⟨nodes.filter (·.1 ≠ []) ++ system, cwd⟩

/-- Writes what a picture of the disk shows and an earlier one does not. -/
def writeBack (before after : Disk) : IO Unit := do
  for (location, node) in after.nodes do
    unless before.nodes.lookup location == some node do
      let path := (← IO.currentDir) / (Disk.pathOf location).text
      match node with
      | .directory => IO.FS.createDirAll path
      | .file bytes _ => IO.FS.writeBinFile path ⟨bytes.toArray⟩
      | .link _ => pure ()

/-- The variables of the environment. -/
def environment : IO (List (String × String)) := do
  let bytes ← try pure (← IO.FS.readBinFile "/proc/self/environ").data.toList catch _ => pure []
  let chars := match Text.decode bytes with
    | .ok s => s.toList
    | .error _ => []
  return (Text.splitOn '\x00' chars).filterMap fun cs =>
    match cs.dropWhile (· ≠ '=') with
    | [] => none
    | _ :: value => some (String.ofList (cs.takeWhile (· ≠ '=')), String.ofList value)

/-- Runs the program and gives its exit code. -/
def run (args : List String) : IO Nat := do
  let before ← picture args
  let (reply, after) := CommandLine.run before (← environment) args
  writeBack before after
  match reply with
  | .usage exit =>
    if exit = 0 then IO.print usage else IO.eprint usage
    return exit
  | .outcome o =>
    IO.print o.stdout
    IO.eprint o.stderr
    return o.exit

end BuildLayout.Program

/-- The entry point of the program. -/
def main (args : List String) : IO UInt32 := do
  return (← BuildLayout.Program.run args).toUInt32
