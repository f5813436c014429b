import BuildLayout.Shell.Arithmetic
import BuildLayout.Shell.Fields

/-! # Expanding words

`Expand.fields` expands the words of a command: parameters, the output of commands and expressions are
put in, the words are divided, and patterns are replaced with the paths that they stand for.
`Expand.text` expands a word that stays one. The output of commands is got from a runner that is
given.
-/

namespace BuildLayout.Shell.Expand

/-- The characters by which fields are divided. -/
def dividers : Run (List Char) := do
  match ← Run.value? "IFS" with
  | some s => return s.toList
  | none => return [' ', '\t', '\n']

/-! ## Tildes -/

/-- The directory of a user; without a name it is given by a variable. -/
def home? (user : List Char) : Run (Option String) := do
  match String.ofList user with
  | "" => Run.value? "HOME"
  | "root" => return some "/root"
  | _ => return none

/-- Expands a tilde at the beginning of a word, and after each colon where there are `several`. -/
def tildes (several : Bool) : (fuel : Nat) → Word → Run Word
  | 0, w => return w
  | fuel + 1, w => do
    let ends (c : Char) : Bool := c == '/' || (several && c == ':')
    match w with
    | .text ('~' :: cs) false :: rest =>
      let user := cs.takeWhile fun c => !ends c
      let after := cs.drop user.length
      let home ← if after = [] ∧ !rest.isEmpty then pure none else home? user
      match home with
      | some dir => return .text dir.toList true :: (← next fuel (.text after false :: rest))
      | none => return .text ('~' :: user) false :: (← next fuel (.text after false :: rest))
    | w => next fuel w
where
  /-- Expands the tildes after colons. -/
  next : (fuel : Nat) → Word → Run Word
    | 0, w => return w
    | fuel + 1, w =>
      if !several then return w
      else
        match w with
        | .text cs false :: rest => do
          let before := cs.takeWhile (· ≠ ':')
          match cs.drop before.length with
          | [] => return .text cs false :: (← next fuel rest)
          | c :: after =>
            return .text (before ++ [c]) false :: (← tildes several fuel (.text after false :: rest))
        | part :: rest => return part :: (← next fuel rest)
        | [] => return []

/-- Expands the tilde at the beginning of a word. -/
def tilde (w : Word) : Run Word := tildes false (w.length + 2) w

/-! ## Parameters -/

/-- The letters of the options that are on. -/
def optionLetters (o : Options) : String :=
  String.ofList ([('v', o.echoing), ('x', o.telling), ('u', o.demanding), ('n', o.idle),
    ('f', o.unglobbed), ('e', o.strict), ('C', o.protecting), ('a', o.exporting)].filterMap fun (c, on) => if on then some c else none)

/-- The arguments of the script with what stands between them. Where fields are made of them, they are
kept apart by a character that no text has. -/
def arguments (full quoted : Bool) (name : String) : Run (List Char) := do
  let ifs ← Run.value? "IFS"
  let apart := full && (if quoted then name = "@" else ifs.isSome)
  let between : List Char :=
    if apart then ['\x00']
    else
      match ifs with
      | some s => s.toList.take 1
      | none => [' ']
  return between.intercalate ((← Run.own).args.map String.toList)

/-- The value of a parameter. -/
def value? (full quoted : Bool) (name : String) : Run (Option (List Char)) := do
  let p ← Run.own
  match name with
  | "@" | "*" => return some (← arguments full quoted name)
  | "#" => return some (toString p.args.length).toList
  | "?" => return some (toString p.status).toList
  | "$" => return some (toString p.shellPid).toList
  | "!" => return p.lastJob.map fun pid => (toString pid).toList
  | "-" => return some (optionLetters p.options).toList
  | _ =>
    if name.toList.all Char.isDigit then
      match Arithmetic.ofDigits 10 (Arithmetic.digitsOf 10 name.toList) with
      | 0 => return some p.script.toList
      | n + 1 => return p.args[n]?.map String.toList
    else return (← Run.value? name).map String.toList

/-- The pieces of the value of a parameter. Arguments that are kept apart are fields of their own. -/
def valuePieces (full quoted : Bool) (name : String) (cs : List Char) : Run (List Piece) := do
  if quoted && full && name = "@" then
    if (← Run.own).args = [] then return []
    else return .quote :: cs.flatMap fun c =>
      if c = '\x00' then [Piece.stop, .quote] else [.char c true false]
  else return piecesOf cs quoted (!quoted)

/-- Refuses a parameter that has no value. -/
def missing {α : Type} (name message : String) : Run α := Run.refuse (name ++ ": " ++ message)

/-- Refuses the use of a variable that has no value. -/
def unbound {α : Type} (name : String) : Run α := do
  missing name (← Run.worded "parameter not set" "unbound variable")

/-- The characters without newlines at their end. -/
def dropNewlines (cs : List Char) : List Char := (cs.reverse.dropWhile (· = '\n')).reverse

mutual

/-- Expands the parts of a word. Where `divides` says so, the word is divided where it was written
without quotes, too. -/
def pieces (capture : Command → Run String) (full divides : Bool) : (fuel : Nat) → Word →
    Run (List Piece)
  | 0, _ => return []
  | _ + 1, [] => return []
  | fuel + 1, p :: ps => do
    let first ← partPieces capture full divides fuel p
    let rest ← pieces capture full divides fuel ps
    return first ++ rest

/-- Expands a part of a word. -/
def partPieces (capture : Command → Run String) (full divides : Bool) : (fuel : Nat) → Part →
    Run (List Piece)
  | 0, _ => return []
  | fuel + 1, part =>
    match part with
    | .text cs true => return .quote :: piecesOf cs true false
    | .text cs false => return piecesOf cs false divides
    | .output body quoted => do
      let s ← capture body
      return piecesOf (dropNewlines s.toList) quoted (!quoted)
    | .arithmetic source quoted => do
      let ps ← pieces capture false false fuel source
      let n ← Arithmetic.value (textOf ps)
      return piecesOf (toString n).toList quoted (!quoted)
    | .parameter name use quoted => do
      let value ← value? full quoted name
      let present (empty : Bool) : Bool := value.any fun cs => !empty || !cs.isEmpty
      let own : Run (List Piece) := valuePieces full quoted name (value.getD [])
      let demanded : Run Unit := do
        if value.isNone && (← Run.own).options.demanding then unbound name
      let word (w : Word) : Run (List Piece) := do pieces capture full (!quoted) fuel (← tilde w)
      let whole (w : Word) : Run (List Piece) := do pieces capture false false fuel (← tilde w)
      match use with
      | .malformed => Run.refuse "Bad substitution"
      | .value => do
        demanded
        own
      | .size => do
        demanded
        return piecesOf (toString (value.getD []).length).toList quoted (!quoted)
      | .default empty w => if present empty then own else word w
      | .alternative empty w => if present empty then word w else return []
      | .assign empty w =>
        if present empty then own
        else do
          let s := textOf (← whole w)
          Run.assign name s
          valuePieces full quoted name s.toList
      | .demand empty w =>
        if present empty then own
        else if w.isEmpty then
          missing name (if empty then "parameter not set or null" else "parameter not set")
        else do missing name (textOf (← whole w))
      | .dropStart longest w => do
        demanded
        let p := patternOf (← whole w)
        valuePieces full quoted name (p.dropStart longest (value.getD []))
      | .dropEnd longest w => do
        demanded
        let p := patternOf (← whole w)
        valuePieces full quoted name (p.dropEnd longest (value.getD []))

end

/-! ## Paths -/

/-- The components of a pattern, which slashes divide. -/
def components : Pattern → List Pattern
  | [] => [[]]
  | c :: p =>
    if c.1 = '/' then [] :: components p
    else
      match components p with
      | first :: rest => (c :: first) :: rest
      | [] => [[c]]

/-- The names in a directory, with those of itself and of the one above it. -/
def namesIn (d : Disk) (dir : String) : List String :=
  match d.locate true ⟨widen (if dir = "" then "." else dir)⟩ with
  | .error _ => []
  | .ok location =>
    match d.node? location with
    | some .directory =>
      let names := (d.below location).filterMap fun
        | ([name], _) => some (narrow name)
        | _ => none
      "." :: ".." :: names
    | _ => []

/-- Something stands at a path, be it a link that leads nowhere. -/
def stands (d : Disk) (path : String) : Bool :=
  match d.locate false ⟨widen path⟩ with
  | .ok _ => true
  | .error _ => false

/-- The paths that components stand for, after the path of a directory. -/
def matching (d : Disk) : (dir : String) → List Pattern → List String
  | dir, [] => if stands d dir then [dir] else []
  | dir, [p] =>
    if p.isSpecial then (found dir p).map (dir ++ ·)
    else
      let path := dir ++ String.ofList p.chars
      if stands d path then [path] else []
  | dir, p :: q :: ps =>
    if p.isSpecial then
      (found dir p).flatMap fun name => matching d (dir ++ name ++ "/") (q :: ps)
    else matching d (dir ++ String.ofList p.chars ++ "/") (q :: ps)
where
  /-- The names in a directory that are of the form of a pattern. A dot at the beginning has to be
  written out. -/
  found (dir : String) (p : Pattern) : List String :=
    (namesIn d dir).filter fun name =>
      (!name.startsWith "." || p.chars.head? = some '.') && p.fits name.toList

/-- The paths that a pattern stands for, in order; one that stands for none stands for itself. -/
def paths (d : Disk) (p : Pattern) : List String :=
  let own := String.ofList p.chars
  if !p.isSpecial then [own]
  else
    match matching d "" (components p) with
    | [] => [own]
    | found => found.mergeSort fun a b => !(b < a)

/-! ## Words -/

/-- The depth to which the parts of words are expanded. -/
def maxDepth : Nat := 100000

/-- The fields of the words of a command. -/
def fields (capture : Command → Run String) (ws : List Word) : Run (List String) := do
  let found ← ws.mapM fun w => do
    let ps ← pieces capture true false maxDepth (← tilde w)
    let fields := divide (← dividers) ps
    if (← Run.own).options.unglobbed then return fields.map fun p => String.ofList p.chars
    else
      let d ← Run.disk
      return fields.flatMap (paths d)
  return found.flatten

/-- A word as one text. -/
def text (capture : Command → Run String) (w : Word) : Run String := do
  return textOf (← pieces capture false false maxDepth (← tilde w))

/-- The value of an assignment. -/
def assigned (capture : Command → Run String) (w : Word) : Run String := do
  return textOf (← pieces capture false false maxDepth (← tildes true (2 * w.length + 4096) w))

/-- A word as a pattern. -/
def pattern (capture : Command → Run String) (w : Word) : Run Pattern := do
  return patternOf (← pieces capture false false maxDepth (← tilde w))

/-- A text in place of the input. -/
def document (capture : Command → Run String) (w : Word) : Run String := do
  return textOf (← pieces capture false false maxDepth w)

end BuildLayout.Shell.Expand
