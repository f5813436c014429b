import BuildLayout.Shell.Expand
import BuildLayout.Shell.Grammar
import BuildLayout.Shell.Program
import BuildLayout.Shell.Signal

/-! # Commands of the shell

The commands of the shell that run no other command. They complain in the name of the shell. A command
of the language (`specialCommands`) that is refused ends a script.
-/

namespace BuildLayout.Shell.Builtin

open Text (Bytes)

/-! ## Arguments -/

/-- A number that is no less than zero. -/
def natural (s : String) : Run Nat :=
  match Utility.natural? s with
  | some n => if (n : Int) ≤ 2147483647 then return n else Run.refuse ("Illegal number: " ++ s)
  | none => Run.refuse ("Illegal number: " ++ s)

/-- Reads options, which stand before all other arguments: letters that stand alone or have a value. -/
def options (flags valued : String) : (fuel : Nat) → List String →
    Run (List (Char × String) × List String)
  | 0, args => return ([], args)
  | _, [] => return ([], [])
  | fuel + 1, a :: args =>
    match a.toList with
    | ['-', '-'] => return ([], args)
    | '-' :: c :: cs => do
      let (os, args) ← letters (c :: cs) args
      let (more, rest) ← options flags valued fuel args
      return (os ++ more, rest)
    | _ => return ([], a :: args)
where
  /-- Reads the letters of one argument. -/
  letters : List Char → List String → Run (List (Char × String) × List String)
    | [], args => return ([], args)
    | c :: cs, args => do
      if valued.toList.contains c then
        match cs, args with
        | [], [] => Run.refuse ("No arg for -" ++ String.ofList [c] ++ " option")
        | [], value :: args => return ([(c, value)], args)
        | cs, args => return ([(c, String.ofList cs)], args)
      else if flags.toList.contains c then
        let (os, args) ← letters cs args
        return ((c, "") :: os, args)
      else Run.refuse ("Illegal option -" ++ String.ofList [c])

/-- Reads options that all stand alone; their letters are given. -/
def flags (letters : String) (args : List String) : Run (List Char × List String) := do
  let (os, rest) ← options letters "" (args.length + 1) args
  return (os.map (·.1), rest)

/-- A text between quotes, as a script would write it. -/
def quoted (s : String) : String :=
  let rec go : (fuel : Nat) → List Char → List Char
    | 0, _ => []
    | fuel + 1, cs =>
      let plain := cs.takeWhile (· ≠ '\'')
      let rest := cs.drop plain.length
      let marks := rest.takeWhile (· = '\'')
      let after := rest.drop marks.length
      '\'' :: plain ++ ['\''] ++
        (if marks = [] then [] else '"' :: marks ++ '"' :: (if after = [] then [] else go fuel after))
  String.ofList (go (s.length + 1) s.toList)

/-! ## Flow -/

/-- Ends the script, with the outcome of the last command unless one is given. -/
def exit (args : List String) : Run Nat := do
  match args with
  | [] => throw .leave
  | a :: _ => do
    let n ← if (← Run.own).extended && (Utility.natural? a).isNone then do
        Run.warn (a ++ ": numeric argument required")
        pure 2
      else natural a
    Run.modifyOwn fun p => { p with status := n % 256, given := some (n % 256) }
    throw .leave

/-- Ends a function or a script in a file. -/
def back (args : List String) : Run Nat := do
  match args with
  | [] => throw .back
  | a :: _ => do
    let n ← natural a
    Run.modifyOwn fun p => { p with status := n % 256 }
    throw .back

/-- Ends loops, or a round of one. -/
def leaveLoops (halt : Nat → Halt) (args : List String) : Run Nat := do
  let n ← match args with
    | [] => pure 1
    | a :: _ => do
      match ← natural a with
      | 0 => Run.refuse ("Illegal number: " ++ a)
      | n => pure n
  match min n (← Run.own).loops with
  | 0 => return 0
  | n => do
    Run.modifyOwn fun p => { p with status := 0 }
    throw (halt n)

/-- Drops arguments of the script. -/
def shift (args : List String) : Run Nat := do
  let n ← match args with
    | [] => pure 1
    | a :: _ => natural a
  if (← Run.own).args.length < n then
    if (← Run.own).extended then return 1 else Run.refuse "can't shift that many"
  Run.modifyOwn fun p => { p with args := p.args.drop n }
  return 0

/-! ## Variables -/

/-- The name and the value of an assignment. -/
def assignment? (a : String) : Option (String × String) :=
  match a.toList.dropWhile (· ≠ '=') with
  | [] => none
  | _ :: value => some (String.ofList (a.toList.takeWhile (· ≠ '=')), String.ofList value)

/-- The variables in order. -/
def ordered : Run (List (String × Variable)) := do
  return (← Run.own).vars.mergeSort fun a b => !(b.1 < a.1)

/-- Shows variables in the form of commands that begin with a word. -/
def showVars (word : String) (isShown : Variable → Bool) : Run Nat := do
  (← ordered).forM fun (name, v) => do
    if isShown v then
      match v.value with
      | some value => Run.putLine (word ++ name ++ "=" ++ quoted value)
      | none => if word ≠ "" then Run.putLine (word ++ name)
  return 0

/-- Marks variables, and gives them values. -/
def mark (word : String) (isMarked : Variable → Bool) (change : Variable → Variable)
    (args : List String) : Run Nat := do
  let (os, args) ← flags "p" args
  if args = [] ∨ os.contains 'p' then showVars word isMarked
  else
    args.forM fun a => do
      let (name, value) := match assignment? a with
        | some (name, value) => (name, some value)
        | none => (a, none)
      if !isName name.toList then Run.refuse (name ++ ": bad variable name")
      if let some value := value then Run.assign name value
      let v := (← Run.binding? name).getD ⟨none, false, false⟩
      Run.setVariable name (some (change v))
    return 0

/-- Hides variables for the time of a function. -/
def localVars (args : List String) : Run Nat := do
  if (← Run.own).calls = 0 then Run.refuse "not in a function"
  args.forM fun a => do
    match assignment? a with
    | some (name, value) => do
      if !isName name.toList then Run.refuse (name ++ ": bad variable name")
      Run.hide name
      Run.assign name value
    | none => do
      if a ≠ "-" then
        if !isName a.toList then Run.refuse (a ++ ": bad variable name")
        Run.hide a
  return 0

/-- Forgets variables or functions. -/
def unset (args : List String) : Run Nat := do
  let (os, args) ← flags "vf" args
  args.forM fun name => do
    if os.contains 'f' then
      Run.modifyOwn fun p => { p with functions := p.functions.filter (·.1 ≠ name) }
    else
      if !isName name.toList then Run.refuse (name ++ ": bad variable name")
      match ← Run.binding? name with
      | some v => do
        if v.fixed then Run.refuse (name ++ ": is read only")
        Run.setVariable name none
      | none => return ()
  return 0

/-- The options by letter and name. -/
def optionNames : List (Char × String) :=
  [('e', "errexit"), ('f', "noglob"), ('I', "ignoreeof"), ('i', "interactive"), ('m', "monitor"),
    ('n', "noexec"), ('s', "stdin"), ('x', "xtrace"), ('v', "verbose"), ('V', "vi"), ('E', "emacs"),
    ('C', "noclobber"), ('a', "allexport"), ('b', "notify"), ('u', "nounset"), ('p', "privileged"),
    (' ', "nolog"), ('_', "debug")]

/-- The options after one was set or taken back. -/
def withOption (o : Options) (c : Char) (on : Bool) : Options :=
  match c with
  | 'e' => { o with strict := on }
  | 'u' => { o with demanding := on }
  | 'x' => { o with telling := on }
  | 'f' => { o with unglobbed := on }
  | 'n' => { o with idle := on }
  | 'a' => { o with exporting := on }
  | 'C' => { o with protecting := on }
  | 'v' => { o with echoing := on }
  | _ => o

/-- Sets an option, or takes it back. -/
def setOption (c : Char) (on : Bool) : Run Unit := do
  if (optionNames.lookup c).isNone || c = ' ' || c = '_' then
    Run.refuse ("Illegal option -" ++ String.ofList [c])
  Run.modifyOwn fun p => { p with options := withOption p.options c on }

/-- Sets options, up to the first argument that is none. Whether the arguments after it are to take the
place of those of the script is told. -/
def setOptions : (fuel : Nat) → List String → Run (Option (List String))
  | 0, _ => return none
  | _, [] => return none
  | fuel + 1, a :: args =>
    match a.toList with
    | ['-'] => do
      Run.modifyOwn fun p =>
        { p with options := { p.options with telling := false, echoing := false } }
      return if args = [] then none else some args
    | ['-', '-'] => return some args
    | '-' :: cs => do
      let args ← letters true cs args
      setOptions fuel args
    | '+' :: cs => do
      let args ← letters false cs args
      setOptions fuel args
    | _ => return some (a :: args)
where
  /-- Sets the options with the letters of one argument. -/
  letters (on : Bool) : List Char → List String → Run (List String)
    | [], args => return args
    | 'o' :: cs, args => do
      match args with
      | [] => do
        showOptions on
        letters on cs []
      | name :: args => do
        match optionNames.find? (·.2 = name) with
        | some (c, _) =>
          Run.modifyOwn fun p => { p with options := withOption p.options c on }
        | none =>
          if name = "pipefail" && (← Run.own).extended then
            Run.modifyOwn fun p => { p with options := { p.options with joining := on } }
          else Run.refuse ("Illegal option -o " ++ name)
        letters on cs args
    | c :: cs, args => do
      setOption c on
      letters on cs args
  /-- Shows all options. -/
  showOptions (plain : Bool) : Run Unit := do
    let letters := (Expand.optionLetters (← Run.own).options).toList
    if plain then Run.putLine "Current option settings"
    optionNames.forM fun (c, name) =>
      if plain then
        Run.putLine (name ++ String.ofList (List.replicate (16 - name.length) ' ') ++
          (if letters.contains c then "on" else "off"))
      else Run.putLine ("set " ++ (if letters.contains c then "-" else "+") ++ "o " ++ name)

/-- Sets options, or the arguments of the script; shows all variables when nothing is given. -/
def setAction (args : List String) : Run Nat := do
  if args = [] then showVars "" (·.value.isSome)
  else
    match ← setOptions (args.length + 1) args with
    | some args => do
      Run.modifyOwn fun p => { p with args, optionOffset := 0 }
      return 0
    | none => return 0

/-! ## Directories -/

/-- The path of a directory that is given from another one, without the segments `.` and `..`. -/
def pathFrom (here target : String) : String :=
  let whole := if target.startsWith "/" then target else here ++ "/" ++ target
  let names := (Text.splitOn '/' whole.toList).foldl (fun (done : List (List Char)) name =>
    if name = [] ∨ name = ['.'] then done
    else if name = ['.', '.'] then done.drop 1
    else name :: done) []
  let slashes := (whole.toList.takeWhile (· = '/')).length
  (if slashes = 2 then "//" else "/") ++ String.ofList (Text.joinWith '/' names.reverse)

/-- A path begins with the segment `.` or `..`, so that it is not looked for in other directories. -/
def isDotted (path : String) : Bool :=
  match path.toList with
  | ['.'] | '.' :: '/' :: _ | ['.', '.'] | '.' :: '.' :: '/' :: _ => true
  | _ => false

/-- Goes on in another directory. -/
def cd (args : List String) : Run Nat := do
  let (os, args) ← flags "LP" args
  let (target, shown) ← match args.head? with
    | none => pure ((← Run.value? "HOME").getD "", false)
    | some "-" => pure ((← Run.value? "OLDPWD").getD "", true)
    | some a => pure (a, false)
  let d ← Run.disk
  let near := target.startsWith "/" || isDotted target
  let path ← Run.value? "CDPATH"
  let dirs := match if near then none else path with
    | none => []
    | some dirs => (Text.splitOn ':' dirs.toList).map String.ofList
  let wanted := if target = "" then "." else target
  let found := dirs.find? fun dir =>
    d.isDirectory ⟨widen (if dir = "" then wanted else dir ++ "/" ++ wanted)⟩
  let (target, shown) := match found with
    | some dir => if dir = "" then (wanted, shown) else (dir ++ "/" ++ wanted, true)
    | none => (target, shown)
  let p ← Run.own
  let here := (← Run.value? "PWD").getD (narrow (Disk.pathOf p.cwd).text)
  let path := if os.getLast? = some 'P' then target else pathFrom here target
  match d.locate true ⟨widen (if path = "" then "." else path)⟩ with
  | .ok location =>
    if d.node? location = some .directory then do
      let path := if os.getLast? = some 'P' then narrow (Disk.pathOf location).text else path
      Run.modifyOwn fun p => { p with cwd := location }
      let exported (value : String) : Variable := ⟨some value, true, false⟩
      Run.setVariable "OLDPWD" (some (exported here))
      Run.setVariable "PWD" (some (exported path))
      if shown then Run.putLine path
      return 0
    else Run.refuse (← Run.worded ("can't cd to " ++ target) (target ++ ": Not a directory"))
  | .error e => do
    Run.refuse (← Run.worded ("can't cd to " ++ target) (target ++ ": " ++ shortText e))

/-- Prints the current directory. -/
def pwd (args : List String) : Run Nat := do
  let (os, _) ← flags "LP" args
  let own := narrow (Disk.pathOf (← Run.own).cwd).text
  let told ← Run.value? "PWD"
  Run.putLine (if os.getLast? = some 'P' then own else told.getD own)
  return 0

/-- A number in base eight. -/
def octal (width n : Nat) : String :=
  let ds := Nat.toDigits 8 n
  String.ofList (List.replicate (width - ds.length) '0' ++ ds)

/-- The bits of letters of permissions. -/
def rightsOf (letters : List Char) : Nat :=
  (if letters.contains 'r' then 4 else 0) + (if letters.contains 'w' then 2 else 0) +
    (if letters.contains 'x' then 1 else 0)

/-- The mask after a change for some of the owner, the group and the others: rights are given, taken, or
are the only ones. -/
def maskAfter (who : List Char) (operator : Char) (rights mask : Nat) : Nat :=
  let part (letter : Char) (old : Nat) : Nat :=
    if !who.contains letter then old
    else if operator = '=' then 7 - rights
    else
      [4, 2, 1].foldl (fun n bit =>
        let wasSet := old / bit % 2 = 1
        let named := rights / bit % 2 = 1
        if (wasSet && !(named && operator = '+')) || (named && operator = '-') then n + bit else n) 0
  part 'u' (mask / 64 % 8) * 64 + part 'g' (mask / 8 % 8) * 8 + part 'o' (mask % 8)

/-- The mask after changes that are written with letters. -/
def symbolicMask (mode : String) (mask : Nat) : Option Nat :=
  (Text.splitOn ',' mode.toList).foldl (fun mask clause =>
    let who := clause.takeWhile "ugoa".toList.contains
    let all := who = [] ∨ who.contains 'a'
    match clause.drop who.length with
    | operator :: letters =>
      if "+-=".toList.contains operator ∧ letters.all "rwx".toList.contains then
        mask.map (maskAfter (if all then ['u', 'g', 'o'] else who) operator (rightsOf letters))
      else none
    | [] => none) (some mask)

/-- Shows or sets the permissions that new files do not get. -/
def umask (args : List String) : Run Nat := do
  let (os, args) ← flags "S" args
  match args with
  | [] => do
    let mask := (← Run.own).mask
    if os.contains 'S' then
      let rights (n : Nat) : String := String.ofList
        ((if n / 4 % 2 = 0 then ['r'] else []) ++ (if n / 2 % 2 = 0 then ['w'] else []) ++
          (if n % 2 = 0 then ['x'] else []))
      Run.putLine ("u=" ++ rights (mask / 64) ++ ",g=" ++ rights (mask / 8) ++ ",o=" ++ rights mask)
    else Run.putLine (octal 4 mask)
    return 0
  | a :: _ => do
    if a.toList.head?.any Char.isDigit then
      if a.toList.all isOctal then
        let mask := Arithmetic.ofDigits 8 (Arithmetic.digitsOf 8 a.toList)
        Run.modifyOwn fun p => { p with mask := mask % 512 }
      else Run.refuse ("Illegal number: " ++ a)
    else if a ≠ "" then
      match symbolicMask a (← Run.own).mask with
      | some mask => Run.modifyOwn fun p => { p with mask }
      | none => Run.refuse ("Illegal mode: " ++ a)
    return 0

/-! ## Input and output -/

/-- Prints its arguments. -/
def echo (args : List String) : Run Nat := do
  if (← Run.own).extended then Utility.echo args
  else
    Run.put 1 (echoed args)
    return 0

/-- Prints by a format. -/
def printf (args : List String) : Run Nat := do
  let (_, args) ← flags "" args
  match args with
  | [] => Run.refuse "usage: printf format [arg ...]"
  | format :: args => do
    let p := formatted format.toList (args.length + 1) { args }
    p.warnings.reverse.forM Run.warn
    match p.fault with
    | some message => do
      Run.warn message
      Run.put 1 (String.ofList p.out.reverse)
      return 2
    | none => do
      Run.put 1 (String.ofList p.out.reverse)
      return if p.failed then 1 else 0

/-- Reads a line of bytes: its characters, of which some are quoted, and whether it ended. What is left
is given. Unless it is taken as it stands, a back-slash quotes a character or joins two lines. -/
def lineOf (raw : Bool) : Bytes → Pattern × Bool × Bytes
  | [] => ([], false, [])
  | [b] => if b = 10 then ([], true, []) else
    if b = 92 ∧ !raw then ([], false, []) else ([(Char.ofNat b.toNat, false)], false, [])
  | b :: c :: bytes =>
    if b = 10 then ([], true, c :: bytes)
    else if b = 92 ∧ !raw then
      let (cs, ended, rest) := lineOf raw bytes
      (if c = 10 then cs else (Char.ofNat c.toNat, true) :: cs, ended, rest)
    else
      let (cs, ended, rest) := lineOf raw (c :: bytes)
      ((Char.ofNat b.toNat, false) :: cs, ended, rest)

/-- Reads a line of the input into variables. -/
def read (args : List String) : Run Nat := do
  let (os, names) ← options "r" "p" (args.length + 1) args
  if names = [] then Run.refuse "arg count"
  let (cs, ended, rest) := lineOf (os.any (·.1 = 'r')) (← Run.peekInput)
  Run.setInput rest
  let words := wordsFor (← Expand.dividers) names.length cs
  names.zipIdx.forM fun (name, i) => Run.assign name (words[i]?.getD "")
  return if ended then 0 else 1

/-! ## Tests -/

/-- A test; one that is closed by a bracket has to end with it. -/
def test (name : String) (args : List String) : Run Nat := do
  let args ← if name = "[" then
      if args.getLast? = some "]" then pure args.dropLast else Run.refuse "missing ]"
    else pure args
  return if ← Test.value (args.length + 2) args then 0 else 1

/-! ## Other names of commands -/

/-- The place of another name among all of them. -/
def aliasOrder (name : String) : Nat :=
  name.toList.foldl (fun n c => n + c.toNat) ((name.toList.headD ' ').toNat * 16) % 39

/-- Shows another name of a command. -/
def showAlias (name text : String) : Run Unit := Run.putLine (name ++ "=" ++ quoted text)

/-- Sets other names of commands, or shows them. -/
def otherNames (args : List String) : Run Nat := do
  match args with
  | [] => do
    let all := (← Run.own).aliases.reverse.mergeSort fun a b => aliasOrder a.1 ≤ aliasOrder b.1
    all.forM fun (name, text) => showAlias name text
    return 0
  | args =>
    args.foldlM (fun status a => do
      match assignment? a with
      | some (name, text) => do
        Run.modifyOwn fun p =>
          { p with aliases :=
            if (p.aliases.lookup name).isSome then
              p.aliases.map fun b => if b.1 = name then (name, text) else b
            else (name, text) :: p.aliases }
        return status
      | none =>
        match (← Run.own).aliases.lookup a with
        | some text => do
          showAlias a text
          return status
        | none => do
          Run.put 2 ("alias: " ++ a ++ " not found\n")
          return 1) 0

/-- Forgets other names of commands. -/
def forgetNames (args : List String) : Run Nat := do
  let (os, args) ← flags "a" args
  if os.contains 'a' then
    Run.modifyOwn fun p => { p with aliases := [] }
    return 0
  else
    args.foldlM (fun status a => do
      if ((← Run.own).aliases.lookup a).isSome then
        Run.modifyOwn fun p => { p with aliases := p.aliases.filter (·.1 ≠ a) }
        return status
      else
        Run.put 2 ("unalias: " ++ a ++ " not found\n")
        return 1) 0

/-! ## Signals -/

/-- Sends a signal to a process. -/
def send (signal pid : Nat) : Run Bool := do
  let w ← Run.world
  if w.running.contains pid then
    if !isIgnored signal || (← Run.own).traps.any (·.1 = signal) then
      if signal ≠ 0 then Run.modifyWorld fun w => { w with signals := w.signals ++ [(pid, signal)] }
    return true
  else if w.jobs.any fun j => j.pid = pid then
    if !isIgnored signal && !isStop signal then
      Run.modifyWorld fun w =>
        { w with jobs := w.jobs.map fun j =>
          if j.pid = pid ∧ j.waiting.isSome then
            { j with waiting := none, status := 128 + signal, signal := some signal }
          else j }
    return true
  else return false

/-- Sends a signal to processes, or lists the signals. -/
def kill (args : List String) : Run Nat := do
  let usage : Run Nat := Run.refuse
    ("Usage: kill [-s sigspec | -signum | -sigspec] [pid | job]... or\nkill -l [exitstatus]")
  let (signal, targets) ← match args with
    | [] => pure (some 15, [])
    | "-l" :: rest => do
      match rest with
      | [] =>
        Run.putLine "0"
        (List.range 31).forM fun n => Run.putLine (signalName (n + 1))
      | a :: _ => do
        let n ← natural a
        let n := if 128 < n then n - 128 else n
        if n = 0 ∨ 64 < n then Run.refuse ("invalid signal number or exit status: " ++ a)
        Run.putLine (signalName n)
      pure (none, [])
    | "-s" :: [] => Run.refuse "No arg for -s option"
    | "-s" :: name :: rest =>
      match signal? name with
      | some n => pure (some n, rest)
      | none => Run.refuse ("invalid signal number or name: " ++ name)
    | a :: rest =>
      match a.toList with
      | ['-', '-'] => pure (some 15, rest)
      | '-' :: cs =>
        match signal? (String.ofList cs) with
        | some n => pure (some n, rest)
        | none => Run.refuse ("Illegal option -" ++ String.ofList (cs.take 1))
      | _ => pure (some 15, args)
  match signal with
  | none => return 0
  | some signal => do
    let targets := if targets.head? = some "--" then targets.drop 1 else targets
    if targets = [] then usage
    else
      targets.foldlM (fun status a => do
        let last := (← Run.own).lastJob
        let pid ← if a.startsWith "%" then
            match last with
            | some pid => pure pid
            | none => Run.refuse ("No such job: " ++ a)
          else natural (if a.startsWith "-" then String.ofList (a.toList.drop 1) else a)
        if ← send signal pid then return status
        else
          Run.warn "No such process\n"
          return 1) 0

/-- Shows or sets what is done when signals come. -/
def trap (args : List String) : Run Nat := do
  let (_, args) ← flags "" args
  match args with
  | [] => do
    let traps := (← Run.own).traps.mergeSort fun a b => a.1 ≤ b.1
    traps.forM fun (n, action) =>
      Run.putLine ("trap -- " ++ quoted action ++ " " ++ signalName n)
    return 0
  | first :: rest => do
    let (action, names) : Option String × List String :=
      if rest = [] then (none, [first]) else (if first = "-" then none else some first, rest)
    names.foldlM (fun status name =>
      match signal? name with
      | some n => do
        Run.modifyOwn fun p =>
          let others := p.traps.filter (·.1 ≠ n)
          { p with traps := match action with
            | some a => (n, a) :: others
            | none => others }
        return status
      | none => do
        Run.put 2 ("trap: " ++ name ++ ": bad trap\n")
        return 1) 0

/-! ## Options one by one -/

/-- Reads the next option of a list of arguments into a variable. -/
def getopts (args : List String) : Run Nat := do
  match args with
  | spec :: name :: rest => do
    let own := (← Run.own).args
    let words := if rest = [] then own else rest
    let silent := spec.startsWith ":"
    let letters := if silent then spec.toList.drop 1 else spec.toList
    let index := (((← Run.value? "OPTIND").bind Utility.natural?).getD 1).max 1
    let offset := (← Run.own).optionOffset
    let finish (index offset : Nat) (option : String) (value : Option String) (status : Nat) : Run Nat := do
      Run.assign "OPTIND" (toString index)
      match value with
      | some v => Run.assign "OPTARG" v
      | none => Run.setVariable "OPTARG" none
      Run.assign name option
      Run.modifyOwn fun p => { p with optionOffset := offset }
      return status
    let word := (words[index - 1]?.getD "").toList
    let continues := 0 < offset && offset < word.length
    let offset := if continues then offset else 1
    if !continues && (word.head? ≠ some '-' || word.length < 2) then finish index 0 "?" none 1
    else if !continues && word = ['-', '-'] then finish (index + 1) 0 "?" none 1
    else
      let c := word[offset]?.getD '?'
      let last := word.length ≤ offset + 1
      let (nextIndex, nextOffset) := if last then (index + 1, 0) else (index, offset + 1)
      let letter := String.ofList [c]
      match letters.dropWhile (· ≠ c) with
      | [] => do
        if !silent then Run.put 2 ("Illegal option -" ++ letter ++ "\n")
        finish nextIndex nextOffset "?" (if silent then some letter else none) 0
      | _ :: after => do
        if c = ':' then
          if !silent then Run.put 2 ("Illegal option -" ++ letter ++ "\n")
          finish nextIndex nextOffset "?" (if silent then some letter else none) 0
        else if after.head? = some ':' then
          if !last then
            finish (index + 1) 0 letter (some (String.ofList (word.drop (offset + 1)))) 0
          else
            match words[index]? with
            | some value => finish (index + 2) 0 letter (some value) 0
            | none => do
              if silent then finish (index + 1) 0 ":" (some letter) 0
              else
                Run.put 2 ("No arg for -" ++ letter ++ " option\n")
                finish (index + 1) 0 "?" none 0
        else finish nextIndex nextOffset letter (some "") 0
  | _ => Run.refuse "Usage: getopts optstring var [arg...]"

/-! ## All of them -/

/-- The commands that run no others, by name. -/
def actions : List (String × (List String → Run Nat)) := [
  (":", fun _ => return 0), ("true", fun _ => return 0), ("false", fun _ => return 1),
  ("alias", otherNames), ("unalias", forgetNames),
  ("times", fun _ => do
    Run.put 1 "0m0.000000s 0m0.000000s\n0m0.000000s 0m0.000000s\n"
    return 0),
  ("ulimit", fun _ => do
    Run.putLine "unlimited"
    return 0),
  ("jobs", fun _ => return 0), ("bg", fun _ => Run.refuse "No current job"),
  ("fg", fun _ => Run.refuse "No current job"), ("echo", echo), ("printf", printf),
  ("test", test "test"), ("[", test "["), ("exit", exit), ("return", back),
  ("break", leaveLoops .stop), ("continue", leaveLoops .again), ("shift", shift), ("kill", kill),
  ("export", mark "export " (·.exported) fun v => { v with exported := true }),
  ("readonly", mark "readonly " (·.fixed) fun v => { v with fixed := true }),
  ("local", localVars), ("unset", unset), ("set", setAction), ("cd", cd), ("chdir", cd), ("pwd", pwd),
  ("read", read), ("umask", umask), ("trap", trap), ("getopts", getopts)]

/-- The commands that run others. -/
def runnersOfShell : List String := [".", "command", "eval", "exec", "hash", "type", "wait"]

/-- A command of the shell has this name. -/
def isBuiltin (extended : Bool) (name : String) : Bool :=
  (actions.lookup name).isSome || runnersOfShell.contains name || (extended && name = "source")

/-- The commands whose arguments may be assignments. -/
def assigning : List String := ["export", "local", "readonly"]

end BuildLayout.Shell.Builtin
