import BuildLayout.Shell.Builtin
import BuildLayout.Shell.Script

/-! # Processes

What runs apart from a shell (`forked`) has a process of its own: only the world is shared. Signals come
between two commands (`deliver`), and what a process does at its end is done by `ended`. Programs in the
background are run when the shell waits for them, sleeps or ends (`runJobs`).
-/

namespace BuildLayout.Shell

/-- How a process ended. -/
inductive Ending where
  | exited (status : Nat)
  | killed (signal : Nat)
deriving DecidableEq, Repr

/-- The outcome of a process that ended. -/
def Ending.status : Ending → Nat
  | .exited n => n
  | .killed n => 128 + n

/-- Does what a shell does when signals came. -/
def deliver (run : Evaluator) : Run Unit := do
  if !(← Run.world).signals.isEmpty then
    let pid := (← Run.own).pid
    let mine := ((← Run.world).signals.filter (·.1 = pid)).map (·.2)
    Run.modifyWorld fun w => { w with signals := w.signals.filter (·.1 ≠ pid) }
    mine.forM fun n => do
      let p ← Run.own
      match p.traps.lookup n with
      | none => if !isIgnored n && !isStop n then throw (.signal n)
      | some "" => if n = 9 then throw (.signal n)
      | some action =>
        if n = 9 then throw (.signal n)
        let _ ← runText run false false action
        Run.modifyOwn fun q => { q with status := p.status }

/-- Runs what a process does up to its end: what is to be done then is done, too. -/
def ended (run : Evaluator) (body : Run Nat) : Run Ending := do
  match ← Run.outcome (do
      let status ← body
      Run.modifyOwn fun p => { p with status }
      deliver run) with
  | .error (.signal n) => return .killed n
  | _ => do
    let p ← Run.own
    match p.traps.lookup 0 with
    | none => return .exited p.status
    | some action => do
      Run.modifyOwn fun p => { p with traps := p.traps.filter (·.1 ≠ 0), given := none, active := none }
      match ← Run.outcome (runText run false false action) with
      | .error (.signal n) => return .killed n
      | .error .leave => return .exited ((← Run.own).given.getD p.status)
      | .error .refused => return .exited p.status
      | _ => return .exited p.status

/-- Runs a process, which is made from the one that starts it. Nothing of it is left but what it did to
the world. -/
def asProcess (change : Process → Process) (body : Run Ending) : Run Ending := do
  let outer ← Run.own
  let pid := (← Run.world).nextPid
  Run.modifyWorld fun w => { w with nextPid := w.nextPid + 1, running := pid :: w.running }
  Run.modifyOwn fun p => { change p with pid }
  let ending ← body.outcome
  Run.modifyOwn fun _ => outer
  Run.modifyWorld fun w => { w with running := w.running.filter (· ≠ pid) }
  match ending with
  | .ok e => return e
  | .error _ => return .exited 2

/-- A process as a part of a shell that runs apart begins: signals are not caught. -/
def Process.fork (p : Process) : Process :=
  { p with traps := p.traps.filter fun t => t.1 ≠ 0 && t.2 = "", given := none }

/-- Runs a part of a shell apart from it. -/
def forked (run : Evaluator) (body : Run Nat) : Run Ending :=
  asProcess Process.fork (ended run body)

/-- Tells of a program that was ended by a signal, and gives the outcome. -/
def awaited (e : Ending) : Run Nat := do
  if let .killed n := e then
    if let some text := endText n then Run.put 2 (text ++ "\n")
  return e.status

/-! ## Background -/

/-- Runs the programs in the background that a process started and that were not run yet. -/
def runJobs (run : Evaluator) (owner : Nat) : Run Unit := do
  let waiting := (← Run.world).jobs.filter fun j => j.owner = owner && j.waiting.isSome
  waiting.forM fun j => do
    match ((← Run.world).jobs.find? (·.pid = j.pid)).bind Job.waiting with
    | none => return ()
    | some (process, c) => do
      let outer ← Run.own
      Run.modifyWorld fun w =>
        { w with
          running := j.pid :: w.running
          jobs := w.jobs.map fun k => if k.pid = j.pid then { k with waiting := none } else k }
      Run.modifyOwn fun _ => process
      let e ← (ended run (run false c)).outcome
      Run.modifyOwn fun _ => outer
      let e := match e with
        | .ok e => e
        | .error _ => .exited 2
      Run.modifyWorld fun w =>
        { w with
          running := w.running.filter (· ≠ j.pid)
          jobs := w.jobs.map fun k =>
            if k.pid = j.pid then
              { k with
                status := e.status
                signal := match e with
                  | .killed n => some n
                  | _ => none }
            else k }

/-- Starts a command in the background. -/
def startJob (c : Command) : Run Nat := do
  let p ← Run.own
  let pid := (← Run.world).nextPid
  let process : Process := { p.fork with
    pid
    channels := (0, .nowhere) :: p.channels.filter (·.1 ≠ 0) }
  Run.modifyWorld fun w =>
    { w with
      nextPid := w.nextPid + 1
      jobs := w.jobs ++ [{ pid, owner := p.pid, waiting := some (process, c) }] }
  Run.modifyOwn fun p => { p with lastJob := some pid }
  return 0

/-- Waits for programs in the background, and gives the outcome of the last one that is named. -/
def waitAction (run : Evaluator) (args : List String) : Run Nat := do
  let owner := (← Run.own).pid
  runJobs run owner
  args.foldlM (fun _ a => do
    let last := (← Run.own).lastJob
    let pid ← if a.startsWith "%" then
        match last with
        | some pid => pure pid
        | none => Run.refuse ("No such job: " ++ a)
      else Builtin.natural a
    match (← Run.world).jobs.find? fun j => j.pid = pid && j.owner = owner with
    | none => return 127
    | some j => do
      Run.modifyWorld fun w => { w with jobs := w.jobs.filter (·.pid ≠ pid) }
      match j.signal with
      | some n => awaited (.killed n)
      | none => return j.status) 0

end BuildLayout.Shell
