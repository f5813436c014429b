import BuildLayout.Compiler.Invocation
import BuildLayout.Failure

/-! # Running the compiler

`Invocation.run` starts the compiler in its directory and waits for its end. What a program does is
not known here: a `Launcher` runs it. What it prints is passed on line by line (`forwarded`): a
carriage return before a newline is dropped, a last line without a newline gets one, and nothing is
passed on from a line on that is not in UTF-8.
-/

namespace BuildLayout

open Text (Bytes)

/-- Lines of bytes without their newlines. -/
def byteLines : Bytes → List (Bytes × Bool)
  | [] => []
  | b :: bytes =>
    if b = 10 then ([], true) :: byteLines bytes
    else
      match byteLines bytes with
      | [] => [([b], false)]
      | (line, ended) :: lines => (b :: line, ended) :: lines

/-- The line without a carriage return before its newline. -/
def dropReturn (line : Bytes) (ended : Bool) : Bytes :=
  if ended && line.getLast? == some 13 then line.dropLast else line

/-- The lines that are passed on. -/
def forwardedLines : List (Bytes × Bool) → String
  | [] => ""
  | (line, ended) :: lines =>
    match Text.decode (dropReturn line ended) with
    | .error _ => ""
    | .ok s => s ++ "\n" ++ forwardedLines lines

/-- What is passed on of the bytes that a program prints. -/
def forwarded (bytes : Bytes) : String := forwardedLines (byteLines bytes)

/-- What came of a program: the disk as it is left, the bytes printed to the two streams, and the exit
code, which a program that was ended by a signal has not. -/
structure ProgramRun where
  disk : Disk
  out : Bytes
  err : Bytes
  exit? : Option Nat

/-- A way to run programs: in the current directory of a disk, with the variables of an environment,
a program with its arguments. -/
abbrev Launcher :=
  Disk → List (String × String) → (program : String) → List String → Except OsError ProgramRun

/-- A run of the compiler that came to its end. -/
structure CompilerRun where
  disk : Disk
  stdout : String
  stderr : String
  exit : Nat

namespace Invocation

/-- The exit code of a compiler that was ended by a signal. -/
def killedExit : Nat := 1

/-- The directory in which the compiler is started. -/
def directory (d : Disk) (i : Invocation) : Except OsError Location :=
  match d.locate true i.workingDir with
  | .error e => .error e
  | .ok location =>
    match d.node? location with
    | some .directory => .ok location
    | _ => .error .notDirectory

/-- Runs the compiler. -/
def run (launch : Launcher) (d : Disk) (vars : List (String × String)) (i : Invocation) :
    Except Failure CompilerRun :=
  let result := do
    let cwd ← i.directory d
    launch { d with cwd } vars i.program.text i.args
  match result with
  | .error e => .error (.io (some i.program) e.text)
  | .ok run => .ok {
      disk := { run.disk with cwd := d.cwd }
      stdout := forwarded run.out
      stderr := forwarded run.err
      exit := run.exit?.getD killedExit }

end Invocation

end BuildLayout
