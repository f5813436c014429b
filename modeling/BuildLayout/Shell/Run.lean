import BuildLayout.Compiler.Run
import BuildLayout.Shell.Eval

/-! # Running a program

`Shell.launch` looks for a program, runs it in the current directory of a disk and gives what came of
it: the disk after it, what it printed and how it ended. What it left running in the background is run to
its end, too.
-/

namespace BuildLayout.Shell

open Text (Bytes)

/-- The number of steps after which a program is given up. -/
def maxSteps : Nat := 1000000

/-- The number of the first process. -/
def firstPid : Nat := 4711

/-- The process of a program before it runs: it sees the variables, nothing can be read from its input,
and what it prints goes to the streams of these numbers. -/
def Process.start (cwd : Location) (vars : List (String × String)) (called : String) : Process :=
  { script := narrow called
    called := narrow called
    vars := vars.reverse.map fun (name, value) => (narrow name, ⟨some (narrow value), true, false⟩)
    cwd
    channels := [(0, .stream 0), (1, .stream 1), (2, .stream 2)]
    pid := firstPid
    shellPid := firstPid }

/-- The world of a program before it runs. -/
def World.start (disk : Disk) : World :=
  { disk
    streams := [(0, .unread []), (1, .written []), (2, .written [])]
    nextPid := firstPid + 1
    running := [firstPid] }

/-- Runs what is still waiting in the background; what it starts there is run after it, `depth` times at
most. -/
def settle : (depth : Nat) → Run Unit
  | 0 => return ()
  | depth + 1 => do
    let owners := ((← Run.world).jobs.filter (·.waiting.isSome)).map Job.owner
    if !owners.isEmpty then
      owners.forM (runJobs (eval maxSteps))
      settle depth

/-- How many programs in the background start one another at most. -/
def maxJobs : Nat := 100

/-- The exit code of a process, unless a signal ended it. -/
def Ending.code? : Ending → Option Nat
  | .exited status => some status
  | .killed _ => none

/-- Runs a program in the current directory of a disk. It is looked for on the search path, and
nothing can be read from its input. -/
def launch : Launcher := fun d vars program args =>
  match search d (vars.lookup "PATH") program args with
  | .error e => .error e
  | .ok image =>
    let whole : Run Ending := do
      let run := eval maxSteps
      let start := runNamed (runFile run maxPrograms)
      let ending ← Run.outcome (runSystem run start image.program (image.args.map narrow))
      settle maxJobs
      match ending with
      | .ok e => return e
      | .error _ => return .exited 2
    let (ending, s) :=
      (ExceptT.run whole).run ⟨Process.start d.cwd vars image.called, World.start d⟩
    let printed (id : Nat) : Bytes :=
      match s.world.streams.lookup id with
      | some (.written chunks) => chunks.reverse.flatten
      | _ => []
    .ok ⟨{ s.world.disk with cwd := d.cwd }, printed 1, printed 2,
      match ending with
      | .ok e => e.code?
      | .error _ => some 2⟩

end BuildLayout.Shell
