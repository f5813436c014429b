import BuildLayout.Shell.Redirection

/-! # Starting programs

`runFile` runs what the system starts for a file: one of its programs, which may start others, or a script.
`external` does so for a command of a shell, apart from it.
-/

namespace BuildLayout.Shell

open Text (Bytes)

/-- A new shell, as a program: of the variables only the exported ones are left. -/
def Process.shell (p : Process) (extended : Bool) : Process :=
  { extended
    script := p.called
    called := p.called
    vars := p.vars.filter fun v => v.2.exported && v.2.value.isSome && isName v.1.toList
    functions := []
    cwd := p.cwd
    channels := p.channels
    shellPid := p.pid
    pid := p.pid
    mask := p.mask
    traps := p.traps.filter fun t => t.1 ≠ 0 && t.2 = "" }

/-- Sets the variables that every shell has. -/
def prepare : Run Unit := do
  let p ← Run.own
  let d ← Run.disk
  let told := ((← Run.value? "PWD").filter fun s =>
    s.startsWith "/" && (match d.locate true ⟨widen s⟩ with
      | .ok location => location = p.cwd
      | .error _ => false))
  let path := told.getD (narrow (Disk.pathOf p.cwd).text)
  Run.setVariable "PWD" (some ⟨some path, true, false⟩)
  Run.setVariable "IFS" (some ⟨some " \t\n", false, false⟩)
  Run.setVariable "OPTIND" (some ⟨some "1", false, false⟩)
  Run.setVariable "PS4" (some ⟨some ((← Run.value? "PS4").getD "+ "), false, false⟩)
  if (← Run.value? "PATH").isNone then
    Run.setVariable "PATH"
      (some ⟨some "/usr/local/sbin:/usr/local/bin:/usr/sbin:/usr/bin:/sbin:/bin", false, false⟩)

/-- Runs a script as a program of its own. Whether its lines may be told as they are read is given. -/
def runScript (run : Evaluator) (isFile : Bool) (script : String) (args : List String)
    (source : String) : Run Ending := do
  Run.modifyOwn fun p => { p with script, args }
  prepare
  ended run (runText run isFile false source)

/-- Reads the options of a shell: whether the script is in an argument or in the input is given beside
the arguments after them. -/
def shellOptions : (fuel : Nat) → (inArgument inInput : Bool) → List String →
    Run (Bool × Bool × List String)
  | 0, inArgument, inInput, args => return (inArgument, inInput, args)
  | _, inArgument, inInput, [] => return (inArgument, inInput, [])
  | fuel + 1, inArgument, inInput, a :: args => do
    let more (on : Bool) (cs : List Char) : Run (Bool × Bool × List String) := do
      let args ← Builtin.setOptions.letters on (cs.filter fun c => c ≠ 'c' && c ≠ 'l') args
      shellOptions fuel (inArgument || cs.contains 'c') (inInput || on && cs.contains 's') args
    match a.toList with
    | ['-'] | ['-', '-'] => return (inArgument, inInput, args)
    | '-' :: cs => more true cs
    | '+' :: cs => more false cs
    | _ => return (inArgument, inInput, a :: args)

/-- The text of a script: bytes that are zero are passed over. -/
def scriptText (bytes : Bytes) : String := ofBytes (bytes.filter (· ≠ 0))

/-- Runs a shell: its options, the script in a file, in an argument or in the input, and arguments. -/
def runShell (run : Evaluator) (extended : Bool) (args : List String) : Run Ending := do
  Run.modifyOwn fun p => p.shell extended
  let called := (← Run.own).called
  let start : Run Ending := do
    let (inArgument, inInput, rest) ← shellOptions (args.length + 1) false false args
    match inArgument, rest with
    | true, [] => Run.refuse "-c requires an argument"
    | true, source :: rest => runScript run false (rest.headD called) (rest.drop 1) source
    | false, [] => do
      let source ← Run.takeInput
      runScript run true called [] (scriptText source)
    | false, file :: args => do
      if inInput then
        let source ← Run.takeInput
        runScript run true called rest (scriptText source)
      else
        match (← Run.disk).read ⟨widen file⟩ with
        | .ok bytes => runScript run true file args (scriptText bytes)
        | .error e => Run.refuse ("cannot open " ++ file ++ ": " ++ openFault "No such file" e)
  match ← start.outcome with
  | .ok e => return e
  | .error _ => return .exited 2

/-- The outcome with which a program that cannot be started fails. -/
def startStatus (e : OsError) : Nat :=
  if [OsError.noEntry, .notDirectory, .tooManyLinks, .nameTooLong].contains e then 127 else 126

/-- The arguments in a text, which blanks divide unless they are quoted. -/
def wordsIn : (fuel : Nat) → (current : Option (List Char)) → List Char → List String
  | 0, _, _ => []
  | _, current, [] => current.toList.map fun cs => String.ofList cs.reverse
  | fuel + 1, current, c :: cs =>
    if c = ' ' ∨ c = '\t' ∨ c = '\n' then
      (current.toList.map fun cs => String.ofList cs.reverse) ++ wordsIn fuel none cs
    else if c = '\'' ∨ c = '"' then
      let inner := cs.takeWhile (· ≠ c)
      wordsIn fuel (some (inner.reverse ++ current.getD [])) (cs.drop (inner.length + 1))
    else if c = '\\' then wordsIn fuel (some (cs.take 1 ++ current.getD [])) (cs.drop 1)
    else wordsIn fuel (some (c :: current.getD [])) cs

/-- Starts a program for another one, which complains if that fails. -/
def started (start : String → List String → Run (Except OsError Ending)) (shown : String → String)
    (hint : String → OsError → Option String) (name : String) (args : List String) : Run Ending := do
  match ← start name args with
  | .ok e => return e
  | .error e => do
    Run.complain (shown name ++ ": " ++ shortText e)
    (hint name e).forM Run.complain
    return .exited (startStatus e)

/-- Reads the options of a program that runs another one in a changed environment, and changes it; the
arguments after them are given, or the outcome with which it fails. -/
def changeEnvironment : (fuel : Nat) → List String → Run (Except Nat (List String))
  | 0, args => return .ok args
  | _, [] => return .ok []
  | fuel + 1, a :: args =>
    let cleared : Run Unit :=
      Run.modifyOwn fun p => { p with vars := p.vars.filter fun v => !v.2.exported }
    match a.toList with
    | ['-'] => do
      cleared
      return .ok args
    | ['-', '-'] => return .ok args
    | '-' :: '-' :: cs => do
      let name := String.ofList (cs.takeWhile (· ≠ '='))
      let value := String.ofList (cs.drop (name.length + 1))
      match name with
      | "ignore-environment" => do
        cleared
        changeEnvironment fuel args
      | "unset" => do
        Run.setVariable value none
        changeEnvironment fuel args
      | "split-string" => changeEnvironment fuel (wordsIn (value.length + 1) none value.toList ++ args)
      | _ => return .error (← Utility.misused ("unrecognized option '" ++ a ++ "'") 125)
    | '-' :: 'i' :: cs => do
      cleared
      changeEnvironment fuel (if cs = [] then args else String.ofList ('-' :: cs) :: args)
    | '-' :: 'v' :: cs => changeEnvironment fuel (if cs = [] then args else String.ofList ('-' :: cs) :: args)
    | '-' :: c :: cs =>
      if c = 'u' ∨ c = 'S' ∨ c = 'C' then
        let values := if cs = [] then args else String.ofList cs :: args
        match values with
        | [] => do
          let message := "option requires an argument -- '" ++ String.ofList [c] ++ "'"
          return .error (← Utility.misused message 125)
        | value :: args => do
          if c = 'S' then changeEnvironment fuel (wordsIn (value.length + 1) none value.toList ++ args)
          else if c = 'u' then
            Run.setVariable value none
            changeEnvironment fuel args
          else
            match (← Run.disk).locate true ⟨widen value⟩ with
            | .ok location => do
              Run.modifyOwn fun p => { p with cwd := location }
              changeEnvironment fuel args
            | .error e => do
              let message := "cannot change directory to '" ++ value ++ "': " ++ shortText e
              return .error (← Run.programFails message 125)
      else do
        let message := "invalid option -- '" ++ String.ofList [c] ++ "'"
        if " \t\n".toList.contains c then
          Run.complain message
          return .error (← Utility.misused "use -[v]S to pass options in shebang lines" 125)
        else return .error (← Utility.misused message 125)
    | _ => return .ok (a :: args)

/-- Runs a program in a changed environment, or shows that. -/
def runChanged (start : String → List String → Run (Except OsError Ending)) (args : List String) :
    Run Ending := do
  match ← changeEnvironment (16 * args.length + 64) args with
  | .error status => return .exited status
  | .ok args => do
    let given := args.takeWhile fun a => (Builtin.assignment? a).isSome
    given.forM fun a => do
      match Builtin.assignment? a with
      | some (name, value) => Run.setVariable name (some ⟨some value, true, false⟩)
      | none => pure ()
    match args.drop given.length with
    | [] => do
      (← Run.environment).forM fun (name, value) => Run.putLine (name ++ "=" ++ value)
      return .exited 0
    | name :: rest =>
      started start (fun name => "'" ++ name ++ "'")
        (fun name e => if e = .noEntry ∧ name.toList.contains ' ' then
          some "use -[v]S to pass options in shebang lines" else none) name rest

/-- Runs a program for the words or the lines of the input. -/
def runForInput (start : String → List String → Run (Except OsError Ending)) (args : List String) :
    Run Ending := do
  let (size, replace, args) := match args with
    | "-n" :: n :: rest => (Utility.natural? n, none, rest)
    | "-I" :: s :: rest => (none, some s, rest)
    | a :: rest =>
      if a.startsWith "-n" then (Utility.natural? (String.ofList (a.toList.drop 2)), none, rest)
      else if a.startsWith "-I" then (none, some (String.ofList (a.toList.drop 2)), rest)
      else (none, none, args)
    | [] => (none, none, [])
  let (command, fixed) := (args.headD "echo", args.drop 1)
  let input ← Run.takeInput
  let text := ofBytes input
  let groups : List (List String) := match replace with
    | some s => (Utility.linesOf input).map fun line => fixed.map fun a => a.replace s line
    | none =>
      let ws := wordsIn (text.length + 1) none text.toList
      match size with
      | some (n + 1) =>
        (List.range ((ws.length + n) / (n + 1))).map fun i =>
          fixed ++ (ws.drop (i * (n + 1))).take (n + 1)
      | _ => [fixed ++ ws]
  let status ← groups.foldlM (fun status args => do
    let e ← started start id (fun _ _ => none) command args
    return if e.status = 0 then status else if 126 ≤ e.status then e.status else 123) 0
  return .exited status

/-- Runs a program of the system; `start` looks for another one and runs it. -/
def runSystem (run : Evaluator) (start : String → List String → Run (Except OsError Ending))
    (program : String) (args : List String) : Run Ending := do
  if shells.contains program then runShell run (program = "bash") args
  else if program = "env" then runChanged start args
  else if program = "xargs" then runForInput start args
  else if ["timeout", "nice", "nohup"].contains program then
    let args := if program = "timeout" then args.drop 1
      else if program = "nice" ∧ args.head? = some "-n" then args.drop 2
      else args
    match args with
    | [] => return .exited (← Utility.misused "missing operand" 125)
    | name :: rest =>
      started start (fun name => if program = "nice" then "'" ++ name ++ "'"
        else "failed to run command '" ++ name ++ "'") (fun _ _ => none) name rest
  else
    if program = "sleep" then
      match (← Run.world).running with
      | _ :: owner :: _ => runJobs run owner
      | _ => pure ()
    match utilities.lookup program with
    | some utility => do
      let status ← utility args
      if (← Run.own).outputLost then
        let part := if program = "cat" then "standard output" else "write error"
        return .exited (← Run.programFails (part ++ ": Bad file descriptor")
          (if program = "ls" then 2 else 1))
      else return .exited status
    | none => return .exited 127

/-- Runs a program with what runs a file. It is looked for on the search path unless its name is a
path. -/
def runNamed (runFile : (called file : String) → List String → Run (Except OsError Ending))
    (name : String) (args : List String) : Run (Except OsError Ending) := do
  if name.toList.contains '/' then runFile name name args
  else
    match whereIs (← Run.disk) ((← Run.value? "PATH").getD defaultPath) name with
    | .error e => return .error e
    | .ok file => runFile name file args

/-- Runs what the system starts for a file. One that is no program of the system and names no
interpreter is run as a script. -/
def runFile (run : Evaluator) : (fuel : Nat) → (called file : String) → List String →
    Run (Except OsError Ending)
  | 0, _, _, _ => return .error .tooManyLinks
  | fuel + 1, called, file, args => do
    let runImage (program called : String) (args : List String) : Run (Except OsError Ending) := do
      Run.modifyOwn fun p => { p with called }
      return .ok (← runSystem run (runNamed (runFile run fuel)) program args)
    match load (← Run.disk) ⟨widen file⟩ (widen called) (args.map widen) with
    | .ok image => runImage image.program (narrow image.called) (image.args.map narrow)
    | .error .badExecutable => runImage "sh" "/bin/sh" (file :: args)
    | .error e => return .error e

/-- The number of programs that start each other at most. -/
def maxPrograms : Nat := 100

/-- Complains of a program that cannot be started, and gives the outcome. -/
def cannotStart (name : String) (e : OsError) : Run Nat := do
  let isDir := e = .denied && name.toList.contains '/' && (← Run.disk).isDirectory ⟨widen name⟩
  let text := if isDir then "Is a directory"
    else if e = .noEntry && !name.toList.contains '/' then "command not found" else shortText e
  Run.warn (name ++ ": " ++ (← Run.worded (openFault "not found" e) text))
  return startStatus e

/-- Runs a program that is no command of the shell. -/
def external (run : Evaluator) (name : String) (args : List String) : Run Nat := do
  let d ← Run.disk
  let found ← if name.toList.contains '/' then pure (Except.ok name)
    else pure (whereIs d ((← Run.value? "PATH").getD defaultPath) name)
  match found with
  | .error e => do
    let status ← cannotStart name e
    return if (← Run.own).extended then status else 127
  | .ok file => do
    let e ← asProcess Process.fork (do
      match ← runFile run maxPrograms name file args with
      | .ok e => return e
      | .error e => return .exited (← cannotStart name e))
    awaited e

end BuildLayout.Shell
