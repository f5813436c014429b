import BuildLayout.Shell.Call

/-! # Running commands

`Shell.eval` runs a command in a number of steps that is given. The functions before it are what it is made
of; they take as an `Evaluator` what runs the commands inside of a command.
-/

namespace BuildLayout.Shell

/-- A text that is expanded as one in place of the input is. -/
def expandedText (run : Evaluator) (s : String) : Run String := do
  let source : Source := { rest := s.toList }
  let never : Awaited := ⟨0, ['\x00'], false, false⟩
  let reader := Source.parts (Source.inner source.fuel) source.fuel (.document never false) []
  match reader.run source with
  | .ok (draft, _) => Expand.document (capture run) draft.word
  | .error _ => return s

/-- Tells a command before it is run. -/
def tell (run : Evaluator) (target : Option Target) (assigned : List (String × String))
    (args : List String) : Run Unit := do
  let p ← Run.own
  if p.options.telling then
    let line := " ".intercalate (assigned.map (fun (name, value) => name ++ "=" ++ value) ++ args)
    Run.keepingChannels do
      Run.connect 2 target
      Run.modifyOwn fun p => { p with options := { p.options with telling := false } }
      let start ← expandedText run ((← Run.value? "PS4").getD "")
      Run.modifyOwn fun p => { p with options := { p.options with telling := true } }
      Run.put 2 (start ++ line ++ "\n")

/-- Gives the variables of assignments their values, for the time of a command if they are `hidden`. -/
def assignAll (run : Evaluator) (hidden : Bool) (assigned : List (String × Word)) :
    Run (List (String × String)) :=
  assigned.mapM fun (name, w) => do
    let value ← Expand.assigned (capture run) w
    if hidden then
      Run.hide name
      Run.assign name value
      let v := (← Run.binding? name).getD ⟨none, false, false⟩
      Run.setVariable name (some { v with exported := true })
    else Run.assign name value
    return (name, value)

/-- What a name runs, functions apart from commands of the language. -/
def invoke (run : Evaluator) (tested : Bool) (name : String) (args : List String) : Run Nat := do
  let p ← Run.own
  match p.functions.lookup name, Builtin.isBuiltin p.extended name with
  | some body, _ =>
    if specialCommands.contains name then builtin run tested name args
    else call run tested body args
  | none, true => builtin run tested name args
  | none, false => external run name args

/-- Runs a command as a command of the shell or a program, not as a function; with an option it is only
told what it is. -/
def command (run : Evaluator) (tested : Bool) (args : List String) : Run Nat := do
  let (letters, rest) ← inName (some "command") (Builtin.flags "pvV" args)
  match rest with
  | [] => return 0
  | name :: rest =>
    if letters.contains 'V' then describe name
    else if letters.contains 'v' then
      match ← meaning name with
      | .program file => do
        Run.putLine file
        return 0
      | .nothing => return 127
      | .aliased text => do
        Run.put 1 "alias "
        Builtin.showAlias name text
        return 0
      | _ => do
        Run.putLine name
        return 0
    else if Builtin.isBuiltin (← Run.own).extended name then builtin run tested name rest
    else external run name rest

/-- Runs a command that is no more than words. -/
def simple (run : Evaluator) (tested : Bool) (line : Nat) (assigned : List (String × Word))
    (words : List Word) (redirects : List Redirect) : Run Nat := do
  Run.modifyOwn fun p => { p with line, outputStatus := 0 }
  let args ← commandWords run words []
  let p ← Run.own
  let channels := p.channels
  let connections ← redirects.mapM (expandRedirect run)
  let name := args.headD ""
  let special := !p.extended && (specialCommands.contains name || name = "local")
  let refused := if p.extended then 1 else 2
  let restore (body : Run Nat) : Run Nat :=
    Run.ending body (Run.modifyOwn fun p => { p with channels })
  let connected ← connectSafely run connections
  if !connected then
    Run.modifyOwn fun p => { p with channels, status := refused }
    if special then throw .refused
    return refused
  else
    let before := channels.lookup 2
    match args with
    | [] =>
      restore do
        let values ← assignAll run false assigned
        if !values.isEmpty then tell run before values []
        return (← Run.own).outputStatus
    | name :: rest =>
      if name = "exec" ∧ rest = [] then
        let values ← assignAll run false assigned
        tell run before values args
        return 0
      else
        restore do
          if special && (p.functions.lookup name).isNone then
            let values ← assignAll run false assigned
            tell run before values args
            invoke run tested name rest
          else
            Run.concealing do
              let values ← assignAll run true assigned
              tell run before values args
              let isRegular := Builtin.isBuiltin p.extended name && (p.functions.lookup name).isNone
              let body := if name = "command" ∧ isRegular then command run tested rest
                else invoke run tested name rest
              if isRegular then
                match ← body.outcome with
                | .error .refused => return if name = "test" ∨ name = "[" then 2 else refused
                | r => Run.ofOutcome r
              else body

/-- Runs a computation inside of one more loop. -/
def inLoop {α : Type} (body : Run α) : Run α := do
  Run.modifyOwn fun p => { p with loops := p.loops + 1 }
  Run.ending body (Run.modifyOwn fun p => { p with loops := p.loops - 1 })

/-- What a loop does after a part of it: it goes on, or ends with an outcome. -/
def afterPart (r : Except Halt Nat) : Run (Bool × Nat) := do
  match r with
  | .ok status => return (true, status)
  | .error (.stop n) =>
    if n ≤ 1 then return (false, (← Run.own).status) else throw (.stop (n - 1))
  | .error (.again n) =>
    if n ≤ 1 then return (true, (← Run.own).status) else throw (.again (n - 1))
  | .error h => throw h

/-- The rounds of a loop with a test. -/
def rounds (run : Evaluator) (tested wanted : Bool) (test body : Command) : (fuel status : Nat) →
    Run Nat
  | 0, _ => throw .leave
  | fuel + 1, status => do
    let r ← (run true test).outcome
    match r with
    | .ok n =>
      if (n = 0) = wanted then
        let (goes, status) ← afterPart (← (run tested body).outcome)
        if goes then rounds run tested wanted test body fuel status else return status
      else return status
    | r => do
      let (goes, n) ← afterPart r
      if goes then rounds run tested wanted test body fuel n else return n

/-- The rounds of a loop over values. -/
def roundsOver (run : Evaluator) (tested : Bool) (name : String) (body : Command) : (status : Nat) →
    List String → Run Nat
  | status, [] => return status
  | _, value :: values => do
    Run.assign name value
    let (goes, status) ← afterPart (← (run tested body).outcome)
    if goes then roundsOver run tested name body status values else return status

/-- The first branch of which a pattern fits a text. -/
def chosenBranch (run : Evaluator) (s : String) : List Branch → Run (Option Command)
  | [] => return none
  | .mk patterns body :: branches => do
    let fits ← patterns.foldlM (fun fits w => do
      if fits then return true
      else return (← Expand.pattern (capture run) w).fits s.toList) false
    if fits then return some body else chosenBranch run s branches

/-- Runs the stages of a pipeline; each reads what the one before wrote. `failed` is the outcome up to
here. -/
def runStages (run : Evaluator) : (input : Option Nat) → (failed : Nat) → List Command → Run Nat
  | _, failed, [] => return failed
  | input, failed, c :: cs => do
    let connectInput : Run Unit := do
      match input with
      | some id => do
        let bytes ← Run.contents id
        Run.setStream id (.unread bytes)
        Run.connect 0 (some (.stream id))
      | none => return ()
    let output ← if cs.isEmpty then pure none else some <$> Run.newStream (.written [])
    let e ← forked run (do
      connectInput
      if let some id := output then Run.connect 1 (some (.stream id))
      run false c)
    if let some id := input then Run.dropStream id
    let status ← awaited e
    let keeps := (← Run.own).options.joining && status = 0
    runStages run output (if keeps then failed else status) cs

/-- Runs a command with connected channels. -/
def withRedirects (run : Evaluator) (line : Nat) (redirects : List Redirect) (body : Run Nat) :
    Run Nat := do
  Run.modifyOwn fun p => { p with line }
  let connections ← redirects.mapM (expandRedirect run)
  Run.keepingChannels do
    if ← connectSafely run connections then body else return if (← Run.own).extended then 1 else 2

/-- A failure ends a strict script unless it is tested. -/
def checked (tested : Bool) (status : Nat) : Run Nat := do
  let p ← Run.own
  Run.modifyOwn fun p => { p with status }
  if p.options.strict && !tested && status ≠ 0 then throw .leave else return status

/-- Runs a command. -/
def eval : (fuel : Nat) → Evaluator
  | 0, _, _ => throw .leave
  | fuel + 1, tested, c => do
    let run := eval fuel
    if (← Run.own).options.idle then return 0
    let status ← match c with
      | .skip => pure 0
      | .simple line assigned words redirects => do
        let status ← simple run tested line assigned words redirects
        Run.modifyOwn fun p => { p with status }
        deliver run
        checked tested status
      | .sequence a b => do
        let _ ← run tested a
        run tested b
      | .both a b => do
        let status ← run true a
        if status = 0 then run tested b else pure status
      | .either a b => do
        let status ← run true a
        if status = 0 then pure status else run tested b
      | .negation a => do
        let status ← run true a
        pure (if status = 0 then 1 else 0)
      | .pipeline stages => do
        let status ← runStages run none 0 stages
        checked tested status
      | .background _ body => startJob body
      | .subshell line body redirects => do
        Run.modifyOwn fun p => { p with line }
        let connections ← redirects.mapM (expandRedirect run)
        let e ← forked run (do
          connectAll run connections
          run tested body)
        let status ← awaited e
        checked tested status
      | .redirected line body redirects => withRedirects run line redirects (run tested body)
      | .choice test yes no => do
        if (← run true test) = 0 then run tested yes else run tested no
      | .loop wanted test body => inLoop (rounds run tested wanted test body fuel 0)
      | .each line name words body => do
        Run.modifyOwn fun p => { p with line }
        let values ← Expand.fields (capture run) words
        inLoop (roundsOver run tested name body 0 values)
      | .select line w branches => do
        Run.modifyOwn fun p => { p with line }
        let s ← Expand.text (capture run) w
        match ← chosenBranch run s branches with
        | some body => run tested body
        | none => pure 0
      | .define name body => do
        Run.modifyOwn fun p =>
          { p with functions := (name, body) :: p.functions.filter (·.1 ≠ name) }
        pure 0
    Run.modifyOwn fun p => { p with status }
    deliver run
    return status

end BuildLayout.Shell
