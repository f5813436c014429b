import BuildLayout.Shell.Launch

/-! # Commands of the shell and functions

`builtin` runs a command of the shell and `call` a function. `meaning` says what a name stands for.
-/

namespace BuildLayout.Shell

/-- How a shell would understand a name. -/
inductive Meaning where
  | keyword
  | aliased (text : String)
  | function
  | special
  | builtin
  | program (file : String)
  | nothing

/-- What a name means to the shell. -/
def meaning (name : String) : Run Meaning := do
  let p ← Run.own
  let d ← Run.disk
  if keywords.contains name then return .keyword
  else if let some text := p.aliases.lookup name then return .aliased text
  else if (p.functions.lookup name).isSome then return .function
  else if specialCommands.contains name then return .special
  else if Builtin.isBuiltin (← Run.own).extended name then return .builtin
  else if name.toList.contains '/' then
    return if d.holds ⟨widen name⟩ then .program name else .nothing
  else
    match whereIs d ((← Run.value? "PATH").getD defaultPath) name with
    | .ok file => return .program file
    | .error _ => return .nothing

/-- Tells what a name means to the shell. -/
def describe (name : String) : Run Nat := do
  match ← meaning name with
  | .keyword => Run.putLine (name ++ " is a shell keyword")
  | .aliased text => Run.putLine (name ++ " is an alias for " ++ text)
  | .function => Run.putLine (name ++ " is a shell function")
  | .special => Run.putLine (name ++ " is a special shell builtin")
  | .builtin => Run.putLine (name ++ " is a shell builtin")
  | .program file => Run.putLine (name ++ " is " ++ file)
  | .nothing => do
    Run.putLine (name ++ ": not found")
    return 127
  return 0

/-- Runs a computation in the name of a command. -/
def inName {α : Type} (name : Option String) (body : Run α) : Run α := do
  let active := (← Run.own).active
  Run.modifyOwn fun p => { p with active := name }
  Run.ending body (Run.modifyOwn fun p => { p with active })

/-- Runs the script in a file as a part of this one. -/
def sourceFile (run : Evaluator) (tested : Bool) (args : List String) : Run Nat := do
  match args with
  | [] => return 0
  | name :: _ => do
    let d ← Run.disk
    let dirs := (Text.splitOn ':' ((← Run.value? "PATH").getD defaultPath).toList).map String.ofList
    let file := if name.toList.contains '/' then some name else
      (dirs.map fun dir => dir ++ "/" ++ name).find? fun file => d.isFile ⟨widen file⟩
    match file with
    | none =>
      if (← Run.own).extended then inName none (Run.refuse (name ++ ": No such file or directory"))
      else Run.refuse (name ++ ": not found")
    | some file =>
      match d.read ⟨widen file⟩ with
      | .error e => do
        let p ← Run.own
        inName (if p.extended then none else p.active) (Run.refuse (← fileFault "cannot open" file "No such file" e))
      | .ok bytes => do
        match ← Run.outcome (inName (some file) (runText run true tested (scriptText bytes))) with
        | .error .back => return (← Run.own).status
        | r => Run.ofOutcome r

/-- Looks for programs, to know where they are. -/
def hash (args : List String) : Run Nat := do
  let (_, names) ← Builtin.flags "rv" args
  names.foldlM (fun status name => do
    match ← meaning name with
    | .nothing => do
      Run.warn (name ++ ": not found")
      return 1
    | _ => return status) 0

/-- Runs a command of the shell that may run others. The name under which it complains was set. -/
def runBuiltin (run : Evaluator) (tested : Bool) (name : String) (args : List String) : Run Nat := do
  match Builtin.actions.lookup name with
  | some action => action args
  | none =>
    match name with
    | "." | "source" => sourceFile run tested args
    | "eval" => runText run false tested (" ".intercalate args)
    | "type" => args.foldlM (fun status a => return max status (← describe a)) 0
    | "hash" => hash args
    | "wait" => waitAction run args
    | "exec" =>
      match args with
      | [] => return 0
      | program :: args => do
        let d ← Run.disk
        let found ← if program.toList.contains '/' then pure (Except.ok program)
          else pure (whereIs d ((← Run.value? "PATH").getD defaultPath) program)
        let result ← match found with
          | .error e => pure (Except.error e)
          | .ok file => do
            let p ← Run.own
            let r ← (runFile run maxPrograms program file args).outcome
            Run.modifyOwn fun q => { p with status := q.status }
            Run.ofOutcome r
        match result with
        | .ok (.exited status) => do
          Run.modifyOwn fun p => { p with status, traps := [], given := some status }
          throw .leave
        | .ok (.killed n) => throw (.signal n)
        | .error e => do
          let status ← cannotStart program e
          Run.modifyOwn fun p => { p with status, given := some status }
          throw .leave
    | _ => return 0

/-- Runs a command of the shell. It complains in its own name, also of output that is lost. -/
def builtin (run : Evaluator) (tested : Bool) (name : String) (args : List String) : Run Nat :=
  inName (some name) do
    Run.modifyOwn fun p => { p with outputLost := false }
    let status ← runBuiltin run tested name args
    if (← Run.own).outputLost then
      Run.modifyOwn fun p => { p with outputLost := false }
      Run.warn (name ++ ": I/O error")
      return if status % 2 = 0 then status + 1 else status
    else return status

/-- Runs a function. -/
def call (run : Evaluator) (tested : Bool) (body : Command) (args : List String) : Run Nat := do
  let p ← Run.own
  Run.modifyOwn fun p =>
    { p with args, loops := 0, calls := p.calls + 1, optionOffset := 0 }
  let r ← Run.outcome (run tested body)
  Run.modifyOwn fun q =>
    { q with
      args := p.args
      loops := p.loops
      calls := p.calls
      optionOffset := p.optionOffset }
  match r with
  | .error .back => return (← Run.own).status
  | r => Run.ofOutcome r

end BuildLayout.Shell
