import BuildLayout.Disk.Change
import BuildLayout.Shell.Octets
import BuildLayout.Shell.Syntax

/-! # The state of running programs

A `Process` holds what belongs to one running shell: its parameters and variables, its directory and
what its channels are connected to. A `World` is what all of them share: the disk, the streams of
bytes between programs, and the programs in the background. A shell that is run apart from another
one gets a copy of its process and the same world. `Run` is the type of what a shell does; it may end
early, for a reason that is a `Halt`.
-/

namespace BuildLayout.Shell

open Text (Bytes)

/-- What a channel is connected to. -/
inductive Target where
  | stream (id : Nat)
  | nowhere
  | file (location : Location)
deriving DecidableEq, Repr

/-- Bytes between programs. -/
inductive Stream where
  /-- They are still to be read. -/
  | unread (bytes : Bytes)
  /-- They were written, the last ones first. -/
  | written (chunks : List Bytes)

/-- A variable of a shell. -/
structure Variable where
  /-- A variable may be known and have no value. -/
  value : Option String
  /-- Programs that are started see it. -/
  exported : Bool := false
  /-- Its value stays. -/
  fixed : Bool := false
deriving DecidableEq, Repr

/-- The options of a shell. -/
structure Options where
  /-- `e`: it ends with the first command that fails. -/
  strict : Bool := false
  /-- `u`: a variable without a value must not be used. -/
  demanding : Bool := false
  /-- `x`: commands are told before they are run. -/
  telling : Bool := false
  /-- `f`: patterns stand for no paths. -/
  unglobbed : Bool := false
  /-- `n`: commands are not run. -/
  idle : Bool := false
  /-- `a`: every variable is exported. -/
  exporting : Bool := false
  /-- `C`: files are protected. -/
  protecting : Bool := false
  /-- `v`: lines are told when they are read. -/
  echoing : Bool := false
  /-- A pipeline fails when any of its commands does. -/
  joining : Bool := false
deriving DecidableEq, Repr

/-- What belongs to one running shell. -/
structure Process where
  /-- The script, or the shell when it has no name. -/
  script : String
  /-- The name under which the program was called. -/
  called : String := ""
  args : List String := []
  vars : List (String × Variable) := []
  functions : List (String × Command) := []
  /-- Other names of commands, with their texts. -/
  aliases : List (String × String) := []
  options : Options := {}
  /-- The outcome of the last command. -/
  status : Nat := 0
  /-- The outcome of the last command whose output was put into a word. -/
  outputStatus : Nat := 0
  /-- The line of the command that is being run. -/
  line : Nat := 0
  /-- The line up to which the script was read. -/
  lineRead : Nat := 0
  /-- The command of the language that is being run. -/
  active : Option String := none
  /-- The number of loops around the command. -/
  loops : Nat := 0
  cwd : Location := []
  channels : List (Nat × Target) := []
  /-- The variables that a function or a command hides, innermost first. -/
  hidden : List (List (String × Option Variable)) := []
  /-- What is done when a signal comes. -/
  traps : List (Nat × String) := []
  /-- Where the options of the script are that are read one by one. -/
  optionOffset : Nat := 0
  /-- The number of the process. -/
  pid : Nat := 0
  /-- The number of the process that runs the script. -/
  shellPid : Nat := 0
  /-- The number of the last process in the background. -/
  lastJob : Option Nat := none
  /-- The outcome with which it was told to end. -/
  given : Option Nat := none
  /-- It is a shell with additions, which words what it complains of in a way of its own. -/
  extended : Bool := false
  /-- The number of functions around the command. -/
  calls : Nat := 0
  /-- Something was to be printed where the output is closed. -/
  outputLost : Bool := false
  /-- The permissions that new files do not get. -/
  mask : Nat := 18

/-- A program in the background. -/
structure Job where
  pid : Nat
  /-- The process that started it. -/
  owner : Nat
  /-- What is still to be run. -/
  waiting : Option (Process × Command) := none
  status : Nat := 0
  /-- The signal that ended it. -/
  signal : Option Nat := none

/-- What all running programs share. -/
structure World where
  disk : Disk
  streams : List (Nat × Stream) := []
  nextStream : Nat := 3
  nextPid : Nat := 1
  jobs : List Job := []
  /-- The processes that run, innermost first. -/
  running : List Nat := []
  /-- The signals that were sent and did not come yet. -/
  signals : List (Nat × Nat) := []
  /-- The texts in place of the input. -/
  documents : List (Nat × Word) := []
  nextDocument : Nat := 0

/-- A shell in its world. -/
structure State where
  own : Process
  world : World

/-- Why a shell does not go on with the next command. -/
inductive Halt where
  /-- It ends. -/
  | leave
  /-- A command was refused. -/
  | refused
  /-- A signal ends it. -/
  | signal (n : Nat)
  /-- A number of loops end. -/
  | stop (loops : Nat)
  /-- A number of loops less one end, and the last goes on with its next round. -/
  | again (loops : Nat)
  /-- The function or the script in a file ends. -/
  | back
deriving DecidableEq, Repr

/-- What a shell does. -/
abbrev Run := ExceptT Halt (StateM State)

namespace Run

/-- The process. -/
def own : Run Process := return (← get).own

/-- The world. -/
def world : Run World := return (← get).world

/-- Changes the process. -/
def modifyOwn (f : Process → Process) : Run Unit := modify fun s => { s with own := f s.own }

/-- Changes the world. -/
def modifyWorld (f : World → World) : Run Unit := modify fun s => { s with world := f s.world }

/-- What comes of a computation, as a value. -/
def outcome {α : Type} (run : Run α) : Run (Except Halt α) := fun s =>
  let (r, s) := (ExceptT.run run).run s
  (.ok r, s)

/-- Gives the value of an outcome again. -/
def ofOutcome {α : Type} : Except Halt α → Run α
  | .ok a => return a
  | .error h => throw h

/-- Runs a computation and what has to follow it in any case. -/
def ending {α : Type} (run : Run α) (after : Run Unit) : Run α := do
  let r ← run.outcome
  after
  ofOutcome r

/-! ## Disk -/

/-- The disk as the process sees it. -/
def disk : Run Disk := do
  let s ← get
  return { s.world.disk with cwd := s.own.cwd }

/-- Changes the disk. -/
def setDisk (d : Disk) : Run Unit := modifyWorld fun w => { w with disk := d }

/-! ## Channels -/

/-- What a channel is connected to. -/
def target? (channel : Nat) : Run (Option Target) := return (← own).channels.lookup channel

/-- Connects a channel, or closes it. -/
def connect (channel : Nat) (target : Option Target) : Run Unit := modifyOwn fun p =>
  let others := p.channels.filter (·.1 ≠ channel)
  { p with channels := match target with
    | some t => (channel, t) :: others
    | none => others }

/-- Runs a computation after which all channels are as before. -/
def keepingChannels {α : Type} (run : Run α) : Run α := do
  let channels := (← own).channels
  ending run (modifyOwn fun p => { p with channels })

/-- A new stream. -/
def newStream (stream : Stream) : Run Nat := do
  let w ← world
  modifyWorld fun w =>
    { w with streams := (w.nextStream, stream) :: w.streams, nextStream := w.nextStream + 1 }
  return w.nextStream

/-- Changes a stream. -/
def setStream (id : Nat) (stream : Stream) : Run Unit := modifyWorld fun w =>
  { w with streams := (id, stream) :: w.streams.filter (·.1 ≠ id) }

/-- The bytes in a stream. -/
def contents (id : Nat) : Run Bytes := do
  match (← world).streams.lookup id with
  | some (.unread bytes) => return bytes
  | some (.written chunks) => return chunks.reverse.flatten
  | none => return []

/-- Forgets a stream. -/
def dropStream (id : Nat) : Run Unit := modifyWorld fun w =>
  { w with streams := w.streams.filter (·.1 ≠ id) }

/-- Writes bytes to a channel; it is told whether it is open. -/
def write (channel : Nat) (bytes : Bytes) : Run Bool := do
  match ← target? channel with
  | none =>
    if channel = 1 ∧ bytes ≠ [] then modifyOwn fun p => { p with outputLost := true }
    return false
  | some .nowhere => return true
  | some (.stream id) =>
    match (← world).streams.lookup id with
    | some (.written chunks) =>
      setStream id (.written (bytes :: chunks))
      return true
    | _ => return false
  | some (.file location) =>
    modifyWorld fun w =>
      match w.disk.node? location with
      | some (.file old executable) =>
        { w with disk := w.disk.put location (.file (old ++ bytes) executable) }
      | _ => w
    return true

/-- Writes a text to a channel. -/
def put (channel : Nat) (s : String) : Run Unit := discard (write channel (toBytes s))

/-- Writes a line to the output. -/
def putLine (s : String) : Run Unit := put 1 (s ++ "\n")

/-- What is left of the input, which is not taken from it. -/
def peekInput : Run Bytes := do
  match ← target? 0 with
  | some (.stream id) =>
    match (← world).streams.lookup id with
    | some (.unread bytes) => return bytes
    | _ => return []
  | _ => return []

/-- Leaves only these bytes in the input. -/
def setInput (bytes : Bytes) : Run Unit := do
  match ← target? 0 with
  | some (.stream id) => setStream id (.unread bytes)
  | _ => return ()

/-- Takes all of the input. -/
def takeInput : Run Bytes := do
  let bytes ← peekInput
  setInput []
  return bytes

/-! ## Messages -/

/-- Chooses the wording of a message, for a plain shell and for one with additions. -/
def worded (plain extended : String) : Run String := do
  return if (← own).extended then extended else plain

/-- Complains in the name of the shell. -/
def warn (message : String) : Run Unit := do
  let p ← own
  put 2 (p.script ++ ": " ++ (if p.extended then "line " else "") ++ toString p.line ++ ": " ++
    (match p.active with
      | some name => name ++ ": "
      | none => "") ++ message ++ "\n")

/-- Complains and refuses a command. -/
def refuse {α : Type} (message : String) : Run α := do
  warn message
  modifyOwn fun p => { p with status := if p.extended then 1 else 2 }
  throw .refused

/-- Complains of a script that cannot be read, and refuses it. -/
def misread {α : Type} (message : String) : Run α := do
  warn message
  modifyOwn fun p => { p with status := 2 }
  throw .refused

/-- Complains in the name under which the program was called. -/
def complain (message : String) : Run Unit := do put 2 ((← own).called ++ ": " ++ message ++ "\n")

/-- Complains in the name of the program, which fails. -/
def programFails (message : String) (status : Nat) : Run Nat := do
  complain message
  return status

/-! ## Variables -/

/-- The variable of a name. -/
def binding? (name : String) : Run (Option Variable) := return (← own).vars.lookup name

/-- Puts a variable in place of the one of its name. -/
def setVariable (name : String) (v : Option Variable) : Run Unit := modifyOwn fun p =>
  let others := p.vars.filter (·.1 ≠ name)
  { p with vars := match v with
    | some v => (name, v) :: others
    | none => others }

/-- The value of a variable. -/
def value? (name : String) : Run (Option String) := do
  return (← binding? name).bind Variable.value

/-- Gives a variable a value. -/
def assign (name value : String) : Run Unit := do
  if !isName name.toList then refuse (name ++ ": bad variable name")
  let old := (← binding? name).getD ⟨none, false, false⟩
  if old.fixed then refuse (← worded (name ++ ": is read only") (name ++ ": readonly variable"))
  let exporting := (← own).options.exporting
  setVariable name (some { old with value := some value, exported := old.exported || exporting })
  if name = "OPTIND" then modifyOwn fun p => { p with optionOffset := 0 }

/-- Keeps a variable as it is for the time after the function or command. -/
def hide (name : String) : Run Unit := do
  let old ← binding? name
  modifyOwn fun p =>
    match p.hidden with
    | frame :: frames =>
      if (frame.lookup name).isSome then p
      else { p with hidden := ((name, old) :: frame) :: frames }
    | [] => p

/-- Runs a computation after which the variables that were hidden in it are as before. -/
def concealing {α : Type} (run : Run α) : Run α := do
  modifyOwn fun p => { p with hidden := [] :: p.hidden }
  ending run (do
    let frame := ((← own).hidden.head?).getD []
    frame.forM fun (name, old) => setVariable name old
    modifyOwn fun p => { p with hidden := p.hidden.drop 1 })

/-- The variables that programs see, oldest first. -/
def environment : Run (List (String × String)) := do
  return (← own).vars.reverse.filterMap fun (name, v) =>
    if v.exported then v.value.map fun value => (name, value) else none

end Run

/-- The wording of an error of the system without its number. -/
def shortText (e : OsError) : String :=
  String.ofList ((e.text.toList.takeWhile (· ≠ '(')).reverse.dropWhile (· = ' ')).reverse

end BuildLayout.Shell
