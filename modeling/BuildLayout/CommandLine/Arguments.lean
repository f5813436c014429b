import BuildLayout.Component.Create
import BuildLayout.Emit.Located

/-! # The arguments of the command line

`Request.ofArguments` reads what is asked for. Options stand before or after the command,
`--name value` or `--name=value`; `--` ends them. Each may be given once before the command and once
after it, and what is given after it counts. A value is checked when the next argument that is no
command has been recognized, or at the end: so an argument that asks for help is answered even where
a later one is wrong, and sometimes where the one just before it is.
-/

namespace BuildLayout.CommandLine

/-- How answers are printed. -/
inductive Layout where
  | pretty
  | compact
deriving DecidableEq, Repr

/-- What the program is asked to do. -/
inductive Command where
  | resolve (file : Path)
  | inSource (file : Path)
  | output (file : Path) (target : Target)
  | createComponent (name : String) (dir : Option Path) (kind : ComponentKind)
  | compile
deriving DecidableEq, Repr

/-- A command, and where and how it is carried out. -/
structure Request where
  workspace : Option Path
  layout : Layout
  command : Command
deriving DecidableEq, Repr

/-- Why arguments ask for no command. -/
inductive Stop where
  /-- They ask how the program is used. -/
  | help
  /-- They ask for the version of the program. -/
  | version
  /-- They are not understood. -/
  | misuse
deriving DecidableEq, Repr

/-! ## Grammars -/

/-- What an argument may be. -/
inductive Kind where
  | text
  /-- A path is not empty. -/
  | path
  | oneOf (names : List String)
deriving DecidableEq, Repr

/-- The text is an argument of the kind. -/
def Kind.accepts (s : String) : Kind → Bool
  | .text => true
  | .path => s ≠ ""
  | .oneOf names => names.contains s

/-- An option with a value, or an argument that is known by its place. -/
structure Parameter where
  name : String
  kind : Kind
deriving DecidableEq, Repr

/-- The arguments that are understood before or after a command. -/
structure Grammar where
  options : List Parameter
  flags : List String := []
  /-- The arguments that are known by their place; all of them have to be given. -/
  operands : List Parameter := []
  /-- The version may be asked for. -/
  versioned : Bool := false
  commands : List String := []

/-- The options that are understood everywhere. -/
def everywhere : List Parameter := [⟨"workspace", .path⟩, ⟨"format", .oneOf ["pretty", "compact"]⟩]

/-- The arguments after each command. -/
def grammars : List (String × Grammar) := [
  ("resolve", { options := everywhere, operands := [⟨"file", .path⟩] }),
  ("in-src", { options := everywhere, operands := [⟨"file", .path⟩] }),
  ("output", {
    options := ⟨"target", .oneOf ["editor", "server", "client"]⟩ :: everywhere
    operands := [⟨"file", .path⟩] }),
  ("create-component", {
    options := ⟨"dir", .path⟩ :: everywhere
    flags := ["singleton"]
    operands := [⟨"name", .text⟩] }),
  ("compile", { options := everywhere })]

/-- The command that explains the others. -/
def helpCommand : String := "help"

/-- The arguments before a command. -/
def outerGrammar : Grammar where
  options := everywhere
  versioned := true
  commands := helpCommand :: grammars.map Prod.fst

/-! ## Reading arguments -/

/-- How an argument reads where options are understood. -/
inductive Word where
  /-- It ends the options. -/
  | separator
  | long (name : String) (value : Option String)
  /-- Options of one letter each. -/
  | short (letter : Char)
  | plain
deriving DecidableEq, Repr

/-- How an argument reads. -/
def Word.ofText (s : String) : Word :=
  match s.toList with
  | ['-', '-'] => .separator
  | '-' :: '-' :: cs =>
    let value := match cs.dropWhile (· ≠ '=') with
      | _ :: value => some (String.ofList value)
      | [] => none
    .long (String.ofList (cs.takeWhile (· ≠ '='))) value
  | '-' :: letter :: _ => .short letter
  | _ => .plain

/-- What was read of the arguments before or after a command. -/
structure Scan where
  values : List (String × String) := []
  flags : List String := []
  /-- How many arguments were taken by their place. -/
  taken : Nat := 0
  /-- The last parameter, with its value unless that is still to come; it was not checked yet. -/
  pending : Option (Parameter × Option String) := none
deriving Repr

namespace Scan

/-- Checks the last parameter: its value is there and fits, and it was not given before. -/
def settle (s : Scan) : Except Stop Scan :=
  match s.pending with
  | none => .ok s
  | some (_, none) => .error .misuse
  | some (p, some value) =>
    if p.kind.accepts value ∧ s.values.lookup p.name = none then
      .ok { s with values := (p.name, value) :: s.values, pending := none }
    else .error .misuse

/-- A parameter that was met, after those before it were checked. -/
def meet (s : Scan) (p : Parameter) (value : Option String) : Except Stop Scan :=
  s.settle.map fun s => { s with pending := some (p, value) }

/-- The value of the last parameter is still to come. -/
def isExpecting (s : Scan) : Bool :=
  match s.pending with
  | some (_, none) => true
  | _ => false

/-- An option that was met by its name. -/
def meetOption (g : Grammar) (s : Scan) (name : String) (value : Option String) :
    Except Stop Scan :=
  match g.options.find? (·.name = name) with
  | some p =>
    match value with
    | none => s.meet p none
    | some v => (s.meet p (some v)).bind settle
  | none =>
    if value ≠ none then .error .misuse
    else if name = "help" then s.settle.bind fun _ => .error .help
    else if name = "version" ∧ g.versioned then s.settle.bind fun _ => .error .version
    else if name ∈ g.flags then
      s.settle.bind fun s =>
        if name ∈ s.flags then .error .misuse else .ok { s with flags := name :: s.flags }
    else .error .misuse

/-- Options of one letter that were met. -/
def meetLetter (g : Grammar) (s : Scan) (letter : Char) : Except Stop Scan :=
  if letter = 'h' then s.meetOption g "help" none
  else if letter = 'V' then s.meetOption g "version" none
  else .error .misuse

/-- An argument that is no option. -/
def meetPlain (g : Grammar) (s : Scan) (a : String) : Except Stop Scan :=
  match g.operands[s.taken]? with
  | none => .error .misuse
  | some p => (s.meet p (some a)).map fun s => { s with taken := s.taken + 1 }

/-- Reads arguments up to a command, which is given with those after it. -/
def read (g : Grammar) (plainOnly : Bool) (s : Scan) :
    List String → Except Stop (Scan × Option (String × List String))
  | [] => .ok (s, none)
  | a :: rest =>
    if plainOnly then (s.meetPlain g a).bind fun s => read g true s rest
    else if !s.isExpecting && g.commands.contains a then .ok (s, some (a, rest))
    else
      match Word.ofText a with
      | .separator => read g true s rest
      | .long name value => (s.meetOption g name value).bind fun s => read g false s rest
      | .short letter => (s.meetLetter g letter).bind fun s => read g false s rest
      | .plain =>
        match s.pending with
        | some (p, none) => read g false { s with pending := some (p, some a) } rest
        | _ => (s.meetPlain g a).bind fun s => read g false s rest

/-- Checks that nothing is missing at the end. -/
def finish (g : Grammar) (s : Scan) : Except Stop Scan :=
  s.settle.bind fun s => if s.taken = g.operands.length then .ok s else .error .misuse

/-- The value of a parameter. -/
def value? (s : Scan) (name : String) : Option String := s.values.lookup name

end Scan

/-! ## Requests -/

/-- The command with a name, from the arguments after it. -/
def Command.ofScan (name : String) (s : Scan) : Command :=
  let file : Path := ⟨(s.value? "file").getD ""⟩
  if name = "resolve" then .resolve file
  else if name = "in-src" then .inSource file
  else if name = "output" then
    .output file (((s.value? "target").bind Target.ofName?).getD .editor)
  else if name = "create-component" then
    .createComponent ((s.value? "name").getD "") ((s.value? "dir").map Path.mk)
      (if "singleton" ∈ s.flags then .singleton else .component)
  else .compile

namespace Request

/-- What the arguments of the program ask for. -/
def ofArguments (args : List String) : Except Stop Request :=
  match Scan.read outerGrammar false {} args with
  | .error stop => .error stop
  | .ok (_, none) => .error .misuse
  | .ok (outer, some (name, rest)) =>
    match grammars.lookup name with
    | none =>
      -- the command is the one for help; it takes the name of at most one other
      if rest = [] ∨ (rest.length = 1 ∧ rest.all outerGrammar.commands.contains) then .error .help
      else .error .misuse
    | some g =>
      match (Scan.read g false {} rest).bind fun (inner, _) => inner.finish g with
      | .error stop => .error stop
      | .ok inner =>
        outer.settle.map fun outer =>
          let given name := (inner.value? name).or (outer.value? name)
          { workspace := (given "workspace").map Path.mk
            layout := if given "format" = some "compact" then .compact else .pretty
            command := .ofScan name inner }

end Request

end BuildLayout.CommandLine
