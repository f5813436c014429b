import BuildLayout.Shell.Job

/-! # Words and channels of commands

`commandWords` expands the words of a command, and `connectAll` connects channels as redirections say,
whose words `expandRedirect` expands.
-/

namespace BuildLayout.Shell

open Text (Bytes)

/-! ## Words -/

/-- What a command prints, which is run apart. -/
def capture (run : Evaluator) (c : Command) : Run String := do
  match c with
  | .skip => return ""
  | c => do
    let id ← Run.newStream (.written [])
    let e ← forked run (do
      Run.connect 1 (some (.stream id))
      run false c)
    let bytes ← Run.contents id
    Run.dropStream id
    let status ← awaited e
    Run.modifyOwn fun p => { p with outputStatus := status }
    return ofBytes (bytes.filter (· ≠ 0))

/-- The words of a command: its name and its arguments. The arguments of some commands may be
assignments, which are not divided. -/
def commandWords (run : Evaluator) : (ws : List Word) → (done : List String) → Run (List String)
  | [], done => return done
  | w :: ws, done => do
    let p ← Run.own
    let name := match done with
      | "command" :: name :: _ => name
      | name :: _ => name
      | [] => ""
    let assigns := Builtin.assigning.contains name && (p.functions.lookup name).isNone
    match if assigns then w.assignment? else none with
    | some (name, value) => do
      let value ← Expand.assigned (capture run) value
      commandWords run ws (done ++ [name ++ "=" ++ value])
    | none => do
      let more ← Expand.fields (capture run) [w]
      commandWords run ws (done ++ more)

/-! ## Redirections -/

/-- A redirection whose words were expanded. -/
inductive Connection where
  | file (channel : Nat) (mode : OpenMode) (name : String)
  | copy (channel : Nat) (source : Option Nat)
  /-- The text in place of the input is expanded when the channel is connected. -/
  | document (channel : Nat) (w : Word)

/-- Expands the words of a redirection. -/
def expandRedirect (run : Evaluator) : Redirect → Run Connection
  | .file channel mode w => return .file channel mode (← Expand.text (capture run) w)
  | .copy channel source => return .copy channel source
  | .copyNamed channel w => do
    let cs := (← Expand.text (capture run) w).toList
    let wrong : Run Connection := do
      Run.modifyOwn fun p => { p with line := p.lineRead }
      Run.refuse "Syntax error: Bad fd number"
    match cs with
    | ['-'] => return .copy channel none
    | [c] => if c.isDigit then return .copy channel (some (c.toNat - 0x30)) else wrong
    | _ => wrong
  | .document channel id => do
    return .document channel (((← Run.world).documents.lookup id).getD [])

/-- Why a file cannot be opened, as a message says it. -/
def openFault (missing : String) (e : OsError) : String :=
  if e = .noEntry ∨ e = .notDirectory then missing else shortText e

/-- What a message says of a file that cannot be opened. -/
def fileFault (plain name missing : String) (e : OsError) : Run String :=
  Run.worded (plain ++ " " ++ name ++ ": " ++ openFault missing e) (name ++ ": " ++ shortText e)

/-- Connects channels. -/
def connectAll (run : Evaluator) (cs : List Connection) : Run Unit :=
  cs.forM fun c => do
    match c with
    | .document channel w => do
      let s ← Expand.document (capture run) w
      let id ← Run.newStream (.unread (toBytes s))
      Run.connect channel (some (.stream id))
    | .copy channel none => Run.connect channel none
    | .copy channel (some source) => do
      match ← Run.target? source with
      | some target => Run.connect channel (some target)
      | none => Run.refuse (toString source ++ ": Bad file descriptor")
    | .file channel mode name => do
      let device := [("/dev/null", none), ("/dev/stdin", some 0), ("/dev/stdout", some 1),
        ("/dev/stderr", some 2), ("/dev/fd/0", some 0), ("/dev/fd/1", some 1),
        ("/dev/fd/2", some 2)].lookup name
      match device with
      | some none => Run.connect channel (some .nowhere)
      | some (some source) => Run.connect channel (← Run.target? source)
      | none =>
        let d ← Run.disk
        let path : Path := ⟨widen name⟩
        let fails (e : OsError) : Run Unit := do
          Run.refuse (← fileFault "cannot create" name "Directory nonexistent" e)
        let opened (d : Disk) : Run Unit := do
          Run.setDisk d
          match d.locate true path with
          | .ok location => Run.connect channel (some (.file location))
          | .error e => fails e
        let emptied : Run Unit :=
          match d.writeFile path [] false with
          | .ok d => opened d
          | .error e => fails e
        match mode with
        | .read => do
          match d.stat path with
          | .ok (.file bytes _) => do
            let id ← Run.newStream (.unread bytes)
            Run.connect channel (some (.stream id))
          | .ok _ => do
            let id ← Run.newStream (.unread [])
            Run.connect channel (some (.stream id))
          | .error e => do
            Run.refuse (← fileFault "cannot open" name "No such file" e)
        | .write =>
          if (← Run.own).options.protecting && d.isFile path then
            Run.refuse ("cannot create " ++ name ++ ": File exists")
          else emptied
        | .force => emptied
        | .append | .both =>
          match d.stat path with
          | .ok .directory => fails .isDirectory
          | .ok _ => opened d
          | .error _ => emptied

/-- Connects channels; of what fails it is only told. -/
def connectSafely (run : Evaluator) (cs : List Connection) : Run Bool := do
  match ← (connectAll run cs).outcome with
  | .ok () => return true
  | .error .refused => return false
  | .error h => throw h

end BuildLayout.Shell
