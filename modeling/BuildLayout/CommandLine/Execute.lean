import BuildLayout.CommandLine.Answer
import BuildLayout.CommandLine.Arguments
import BuildLayout.Compiler.Run
import BuildLayout.Report
import BuildLayout.Settings.Load

/-! # Doing what is asked for

`CommandLine.execute` does what the arguments of the program ask for, on a disk and with the variables
of an environment. An answer is printed as JSON, and so is the report of a failure, to the other
stream. JSON is text, so an answer with a path that is none cannot be given (`printable`). The compiler
is run by a `Launcher`.
-/

namespace BuildLayout.CommandLine

/-- The name of the program and its version. -/
def versionLine : String := "airship 0.3.0\n"

/-- What the program prints, and its exit code. -/
structure Outcome where
  exit : Nat
  stdout : String
  stderr : String
deriving DecidableEq, Repr

/-- What comes of a call of the program. -/
inductive Reply where
  /-- It is explained how the program is used. -/
  | usage (exit : Nat)
  | outcome (o : Outcome)
deriving DecidableEq, Repr

/-- JSON in a layout, as lines. -/
def print (layout : Layout) (v : Json) : String :=
  (match layout with
    | .pretty => v.pretty
    | .compact => v.compact) ++ "\n"

/-- The outcome of a request that was answered. -/
def answered (layout : Layout) (fields : List (String × Json)) : Outcome :=
  ⟨0, print layout (.ofFields fields), ""⟩

/-- The outcome of a request that was refused. -/
def refused (layout : Layout) (f : Failure) : Outcome := ⟨1, "", print layout f.report.toJson⟩

/-- The answer to a request, or why it is refused. -/
def outcome (layout : Layout) : Except Failure (List (String × Json)) → Outcome
  | .ok fields => answered layout fields
  | .error f => refused layout f

/-- An answer about paths, all of which have to be text. -/
def printable (paths : List Path) (fields : List (String × Json)) :
    Except Failure (List (String × Json)) :=
  if paths.all Path.isText then .ok fields
  else .error (.settings "Failed to serialize output: path contains invalid UTF-8 characters")

/-- The workspace of a request: the current directory unless another one is given. -/
def Request.directory (r : Request) (d : Disk) : Path :=
  let cwd := Disk.pathOf d.cwd
  match r.workspace with
  | some dir => cwd.resolveAgainst dir
  | none => cwd

/-- The answer to a question about the configuration of a file. -/
def resolveFile (d : Disk) (file : Path) : Except Failure (List (String × Json)) :=
  (Configuration.resolve d file).bind fun c =>
    printable c.shownPaths (c.fields ++
      [("sourceRoots", Path.listToJson ((c.sourceRoots?.map SourceRoots.paths).getD []))])

/-- The answer to a question for the output of a file. -/
def findOutput (d : Disk) (settings : Settings) (file : Path) (target : Target) :
    Except Failure (List (String × Json)) :=
  (Located.find d file target).bind fun l =>
    printable l.shownPaths (l.fields ++ [("openToSide", .bool settings.output.openToSide)])

/-- Carries out a command in a workspace. The disk is given as it is left. -/
def carryOut (launch : Launcher) (d : Disk) (vars : List (String × String)) (settings : Settings)
    (workspace : Path) (layout : Layout) : Command → Outcome × Disk
  | .resolve file => (outcome layout (resolveFile d (workspace.resolveAgainst file)), d)
  | .inSource file =>
    let file := workspace.resolveAgainst file
    (answered layout [("file", .string file.display), ("inSrc", .bool (Located.isInSource d file))], d)
  | .output file target =>
    (outcome layout (findOutput d settings (workspace.resolveAgainst file) target), d)
  | .createComponent name dir kind =>
    let dir := match dir with
      | some dir => workspace.resolveAgainst dir
      | none => Component.defaultDir workspace
    let (created, d) := Component.create d dir name kind
    (outcome layout (created.bind fun c => printable [c.path] c.fields), d)
  | .compile =>
    match (Invocation.ofWorkspace d workspace settings.command).run launch d vars with
    | .error f => (refused layout f, d)
    | .ok run => (⟨run.exit, run.stdout, run.stderr⟩, run.disk)

/-- Does what a request asks for. -/
def Request.run (launch : Launcher) (d : Disk) (vars : List (String × String)) (r : Request) :
    Outcome × Disk :=
  let workspace := r.directory d
  match Settings.load d vars workspace with
  | .error f => (refused r.layout f.failure, d)
  | .ok settings => carryOut launch d vars settings workspace r.layout r.command

/-- Does what the arguments of the program ask for. -/
def execute (launch : Launcher) (d : Disk) (vars : List (String × String)) (args : List String) :
    Reply × Disk :=
  match Request.ofArguments args with
  | .error .help => (.usage 0, d)
  | .error .misuse => (.usage 2, d)
  | .error .version => (.outcome ⟨0, versionLine, ""⟩, d)
  | .ok r =>
    let (o, d) := r.run launch d vars
    (.outcome o, d)

end BuildLayout.CommandLine
