import BuildLayout.Shell.Arithmetic

/-! # Tests

A test is a list of words: tests of texts, numbers and files, with `!`, `-a`, `-o` and brackets between
them. Whether a word counts as an operator depends on the words after it.
-/

namespace BuildLayout.Shell.Test

/-- The tests of one word. -/
def unaryOperators : List String :=
  ["-r", "-w", "-x", "-e", "-f", "-d", "-c", "-b", "-p", "-u", "-g", "-k", "-s", "-t", "-z", "-n",
    "-h", "-O", "-G", "-L", "-S"]

/-- The tests of two words. -/
def binaryOperators : List String :=
  ["=", "!=", "<", ">", "-eq", "-ne", "-ge", "-gt", "-le", "-lt", "-nt", "-ot", "-ef"]

/-- What a word stands for in a test. -/
inductive Role where
  | ends
  | operand
  | unary
  | binary
  | not
  | both
  | either
  | opening
  | closing
deriving DecidableEq, Repr

/-- What a word stands for when nothing else is known of it. -/
def role? (s : String) : Option Role :=
  if unaryOperators.contains s then some .unary
  else if binaryOperators.contains s then some .binary
  else [("!", Role.not), ("-a", .both), ("-o", .either), ("(", .opening), (")", .closing)].lookup s

/-- What the first word stands for. -/
def roleOf : List String → Role
  | [] => .ends
  | s :: rest =>
    match role? s with
    | none => .operand
    | some .unary =>
      match rest with
      | [] => .operand
      | [_] => .unary
      | t :: _ => if role? t = some .binary then .operand else .unary
    | some .opening => if rest = [] then .operand else .opening
    | some r => r

/-- Refuses a test. -/
def refuse {α : Type} (word message : String) : Run α :=
  Run.refuse (if word = "" then message else word ++ ": " ++ message)

/-- A whole number in base ten, with blanks around it. -/
def number (s : String) : Run Int := do
  let isBlank (c : Char) : Bool := c == ' ' || ('\t' ≤ c && c ≤ '\r')
  let (negative, ds) := match s.toList.dropWhile isBlank with
    | '-' :: cs => (true, cs)
    | '+' :: cs => (false, cs)
    | cs => (false, cs)
  let digits := Arithmetic.digitsOf 10 ds
  let n : Int := Arithmetic.ofDigits 10 digits
  let n := if negative then -n else n
  if digits = [] ∨ (ds.drop digits.length).any (!isBlank ·) ∨ Arithmetic.largest < n ∨
      n < -Arithmetic.largest - 1 then
    Run.refuse ("Illegal number: " ++ s)
  else return n

/-- The value of a test of one word. -/
def unary (operator s : String) : Run Bool := do
  let d ← Run.disk
  let p : Path := ⟨widen s⟩
  match operator with
  | "-n" => return s ≠ ""
  | "-z" => return s = ""
  | "-t" =>
    let _ ← number s
    return false
  | "-d" => return d.isDirectory p
  | "-f" => return d.isFile p
  | "-e" | "-r" | "-w" | "-O" | "-G" => return d.holds p
  | "-s" => return match d.stat p with
    | .ok (.file bytes _) => bytes ≠ []
    | .ok _ => true
    | .error _ => false
  | "-x" => return match d.stat p with
    | .ok (.file _ executable) => executable
    | .ok _ => true
    | .error _ => false
  | "-L" | "-h" => return match d.locate false p with
    | .ok location => (d.nodes.lookup location).any fun
      | .link _ => true
      | _ => false
    | .error _ => false
  | _ => return false

/-- The value of a test of two words. -/
def binary (operator a b : String) : Run Bool := do
  let numbers (f : Int → Int → Bool) : Run Bool := return f (← number a) (← number b)
  match operator with
  | "=" => return a = b
  | "!=" => return a ≠ b
  | "<" => return a < b
  | ">" => return b < a
  | "-eq" => numbers fun x y => x = y
  | "-ne" => numbers fun x y => x ≠ y
  | "-lt" => numbers fun x y => x < y
  | "-le" => numbers fun x y => x ≤ y
  | "-gt" => numbers fun x y => y < x
  | "-ge" => numbers fun x y => y ≤ x
  | "-ef" =>
    let d ← Run.disk
    return match d.locate true ⟨widen a⟩, d.locate true ⟨widen b⟩ with
      | .ok x, .ok y => x = y
      | _, _ => false
  | _ => return false

mutual

/-- The value of alternatives, and the words from the last one that was looked at on. -/
def alternatives : (fuel : Nat) → Role → List String → Run (Bool × List String)
  | 0, _, ws => return (false, ws)
  | fuel + 1, role, ws => do
    let (a, ws) ← conjuncts fuel role ws
    if roleOf (ws.drop 1) = .either then
      let ws := ws.drop 2
      let (b, ws) ← alternatives fuel (roleOf ws) ws
      return (a || b, ws)
    else return (a, ws)

/-- The value of conditions that all have to hold. -/
def conjuncts : (fuel : Nat) → Role → List String → Run (Bool × List String)
  | 0, _, ws => return (false, ws)
  | fuel + 1, role, ws => do
    let (a, ws) ← negated fuel role ws
    if roleOf (ws.drop 1) = .both then
      let ws := ws.drop 2
      let (b, ws) ← conjuncts fuel (roleOf ws) ws
      return (a && b, ws)
    else return (a, ws)

/-- The value of a condition with negations before it. -/
def negated : (fuel : Nat) → Role → List String → Run (Bool × List String)
  | 0, _, ws => return (false, ws)
  | fuel + 1, role, ws =>
    if role = .not then do
      let next := roleOf (ws.drop 1)
      let ws := if next = .ends then ws else ws.drop 1
      let (a, ws) ← negated fuel next ws
      return (!a, ws)
    else single fuel role ws

/-- The value of one condition. -/
def single : (fuel : Nat) → Role → List String → Run (Bool × List String)
  | 0, _, ws => return (false, ws)
  | fuel + 1, role, ws => do
    match role with
    | .ends => return (false, ws)
    | .opening => do
      let ws := ws.drop 1
      if roleOf ws = .closing then return (false, ws)
      else
        let (a, ws) ← alternatives fuel (roleOf ws) ws
        let ws := ws.drop 1
        if roleOf ws = .closing then return (a, ws) else refuse "" "closing paren expected"
    | .unary =>
      match ws with
      | operator :: s :: rest => return (← unary operator s, s :: rest)
      | _ => refuse (ws.headD "") "argument expected"
    | _ =>
      if roleOf (ws.drop 1) = .binary then
        match ws with
        | a :: operator :: b :: rest => return (← binary operator a b, b :: rest)
        | _ => refuse ((ws.drop 1).headD "") "argument expected"
      else return (ws.headD "" ≠ "", ws)

end

/-- The value of the words of a test. -/
def value : (fuel : Nat) → List String → Run Bool
  | 0, _ => return false
  | fuel + 1, ws => do
    let whole (role : Role) (ws : List String) : Run Bool := do
      let (a, ws) ← alternatives (8 * ws.length + 8) role ws
      match ws with
      | w :: _ :: _ => refuse w "unexpected operator"
      | _ => return a
    let bracketed : Bool := ws.head? = some "(" && ws.getLast? = some ")"
    if ws = [] then return false
    else if ws.length = 3 ∧ (ws[1]?.bind role?) = some .binary then whole .operand ws
    else if ws.length = 3 ∨ ws.length = 4 then
      if bracketed then
        let ws := (ws.drop 1).dropLast
        whole (roleOf ws) ws
      else if ws.head? = some "!" then return !(← value fuel (ws.drop 1))
      else whole (roleOf ws) ws
    else whole (roleOf ws) ws

end BuildLayout.Shell.Test
