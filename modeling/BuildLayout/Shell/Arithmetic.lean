import BuildLayout.Shell.State

/-! # Expressions over whole numbers

`Arithmetic.read` reads an expression with the operators of a script and `Arithmetic.value` evaluates
it. Numbers have 64 bits with a sign and wrap around. What a connective or a choice does not need is
not evaluated.
-/

namespace BuildLayout.Shell.Arithmetic

/-- An expression. -/
inductive Expression where
  | number (n : Int)
  | variable (name : String)
  | unary (operator : String) (a : Expression)
  | binary (operator : String) (a b : Expression)
  | both (a b : Expression)
  | either (a b : Expression)
  | choice (a b c : Expression)
  /-- An assignment, of what the operator makes of the old value if there is one. -/
  | assign (name : String) (operator : Option String) (a : Expression)
deriving Repr

/-- A token of an expression. -/
inductive Token where
  | number (n : Int)
  | name (s : String)
  | operator (s : String)
  | wrong
deriving DecidableEq, Repr

/-- The largest number. -/
def largest : Int := 9223372036854775807

/-- A number in 64 bits with a sign. -/
def wrap (n : Int) : Int := Int.bmod n 18446744073709551616

/-- The value of a digit, in any base up to sixteen. -/
def digit? (c : Char) : Option Nat :=
  if c.isDigit then some (c.toNat - 0x30)
  else if 'a' ≤ c ∧ c ≤ 'f' then some (c.toNat - 0x57)
  else if 'A' ≤ c ∧ c ≤ 'F' then some (c.toNat - 0x37)
  else none

/-- The digits of a base that a text begins with. -/
def digitsOf (base : Nat) (cs : List Char) : List Nat :=
  (cs.takeWhile fun c => (digit? c).any (· < base)).filterMap digit?

/-- The number that digits spell. -/
def ofDigits (base : Nat) (ds : List Nat) : Nat := ds.foldl (fun n d => n * base + d) 0

/-- A number that a text begins with, and how many characters spell it. A zero before it sets the base
to eight, and a zero with an `x` to sixteen. -/
def numeral (cs : List Char) : Nat × Nat :=
  match cs with
  | '0' :: x :: rest =>
    if (x = 'x' ∨ x = 'X') ∧ digitsOf 16 rest ≠ [] then
      (ofDigits 16 (digitsOf 16 rest), (digitsOf 16 rest).length + 2)
    else (ofDigits 8 (digitsOf 8 cs), (digitsOf 8 cs).length)
  | '0' :: [] => (0, 1)
  | _ => (ofDigits 10 (digitsOf 10 cs), (digitsOf 10 cs).length)

/-- The operators, a longer one before those it begins with. -/
def operators : List String :=
  ["<<=", ">>=", "||", "&&", "==", "!=", "<=", ">=", "<<", ">>", "+=", "-=", "*=", "/=", "%=", "&=",
    "|=", "^=", "=", "<", ">", "+", "-", "*", "/", "%", "(", ")", "!", "~", "?", ":", "&", "|", "^"]

/-- The tokens of an expression. -/
def tokens : (fuel : Nat) → List Char → List Token
  | 0, _ => []
  | _, [] => []
  | fuel + 1, c :: cs =>
    if c = ' ' ∨ c = '\t' ∨ c = '\n' then tokens fuel cs
    else if c.isDigit then
      let (n, size) := numeral (c :: cs)
      .number (min (n : Int) largest) :: tokens fuel ((c :: cs).drop size)
    else if isNameStart c then
      .name (String.ofList ((c :: cs).takeWhile isNameChar)) ::
        tokens fuel ((c :: cs).dropWhile isNameChar)
    else
      match operators.find? fun s => s.toList.isPrefixOf (c :: cs) with
      | some s => .operator s :: tokens fuel ((c :: cs).drop s.toList.length)
      | none => .wrong :: tokens fuel cs

/-- The operators between two values, strongest first. -/
def levels : List (List String) :=
  [["*", "/", "%"], ["+", "-"], ["<<", ">>"], ["<", "<=", ">", ">="], ["==", "!="], ["&"], ["^"],
    ["|"]]

/-- The operators that assign, with what they make of the old value. -/
def assignments : List (String × Option String) :=
  [("=", none), ("+=", some "+"), ("-=", some "-"), ("*=", some "*"), ("/=", some "/"),
    ("%=", some "%"), ("&=", some "&"), ("|=", some "|"), ("^=", some "^"), ("<<=", some "<<"),
    (">>=", some ">>")]

/-- What is read of an expression, and what is left. -/
abbrev Read := Except String (Expression × List Token)

mutual

/-- Reads an assignment, or a choice. -/
def assignment : (fuel : Nat) → List Token → Read
  | 0, _ => .error "expecting primary"
  | fuel + 1, ts =>
    match ts with
    | .name s :: .operator o :: rest =>
      match assignments.lookup o with
      | some operator => do
        let (a, rest) ← assignment fuel rest
        return (.assign s operator a, rest)
      | none => choice fuel ts
    | ts => choice fuel ts

/-- Reads a choice between two values, or a disjunction. -/
def choice : (fuel : Nat) → List Token → Read
  | 0, _ => .error "expecting primary"
  | fuel + 1, ts => do
    let (a, ts) ← disjunction fuel ts
    match ts with
    | .operator "?" :: ts => do
      let (b, ts) ← assignment fuel ts
      match ts with
      | .operator ":" :: ts => do
        let (c, ts) ← choice fuel ts
        return (.choice a b c, ts)
      | _ => .error "expecting ':'"
    | ts => return (a, ts)

/-- Reads a disjunction. -/
def disjunction : (fuel : Nat) → List Token → Read
  | 0, _ => .error "expecting primary"
  | fuel + 1, ts => do
    let (a, ts) ← conjunction fuel ts
    match ts with
    | .operator "||" :: ts => do
      let (b, ts) ← disjunction fuel ts
      return (.either a b, ts)
    | ts => return (a, ts)

/-- Reads a conjunction. -/
def conjunction : (fuel : Nat) → List Token → Read
  | 0, _ => .error "expecting primary"
  | fuel + 1, ts => do
    let (a, ts) ← level fuel levels.reverse ts
    match ts with
    | .operator "&&" :: ts => do
      let (b, ts) ← conjunction fuel ts
      return (.both a b, ts)
    | ts => return (a, ts)

/-- Reads values with operators of the given levels between them, weakest first. -/
def level : (fuel : Nat) → List (List String) → List Token → Read
  | 0, _, _ => .error "expecting primary"
  | fuel + 1, [], ts => atom fuel ts
  | fuel + 1, operators :: stronger, ts => do
    let (a, ts) ← level fuel stronger ts
    levelAfter fuel operators stronger a ts

/-- Reads operators of one level with the values after them. -/
def levelAfter : (fuel : Nat) → List String → List (List String) → Expression → List Token → Read
  | 0, _, _, _, _ => .error "expecting primary"
  | fuel + 1, operators, stronger, a, ts =>
    match ts with
    | .operator s :: rest =>
      if operators.contains s then do
        let (b, rest) ← level fuel stronger rest
        levelAfter fuel operators stronger (.binary s a b) rest
      else .ok (a, ts)
    | ts => .ok (a, ts)

/-- Reads a number, a name, or an expression in brackets, with operators before it. -/
def atom : (fuel : Nat) → List Token → Read
  | 0, _ => .error "expecting primary"
  | fuel + 1, ts =>
    match ts with
    | .number n :: ts => .ok (.number n, ts)
    | .name s :: ts => .ok (.variable s, ts)
    | .operator "(" :: ts => do
      let (a, ts) ← assignment fuel ts
      match ts with
      | .operator ")" :: ts => return (a, ts)
      | _ => .error "expecting ')'"
    | .operator "+" :: ts => atom fuel ts
    | .operator s :: ts =>
      if s = "-" ∨ s = "!" ∨ s = "~" then do
        let (a, ts) ← atom fuel ts
        return (.unary s a, ts)
      else .error "expecting primary"
    | _ => .error "expecting primary"

end

/-- Reads an expression. -/
def read (cs : List Char) : Except String Expression := do
  let ts := tokens (cs.length + 1) cs
  let (e, rest) ← assignment (16 * ts.length + 32) ts
  if rest = [] then return e else .error "expecting EOF"

/-- The value of a truth value. -/
def ofBool (b : Bool) : Int := if b then 1 else 0

/-- The bits of a number, as a number without a sign. -/
def bits (n : Int) : Nat := (n % 18446744073709551616).toNat

/-- What an operator makes of two values; there is no quotient by zero. -/
def combine? (operator : String) (a b : Int) : Option Int :=
  let bitwise (f : Nat → Nat → Nat) : Option Int := some (wrap (f (bits a) (bits b) : Nat))
  let shift := (b % 64).toNat
  match operator with
  | "*" => some (wrap (a * b))
  | "/" => if b = 0 then none else some (wrap (a.tdiv b))
  | "%" => if b = 0 then none else some (a.tmod b)
  | "+" => some (wrap (a + b))
  | "-" => some (wrap (a - b))
  | "<<" => some (wrap (a * (Nat.pow 2 shift : Nat)))
  | ">>" => some (a.fdiv (Nat.pow 2 shift : Nat))
  | "<" => some (ofBool (a < b))
  | "<=" => some (ofBool (a ≤ b))
  | ">" => some (ofBool (b < a))
  | ">=" => some (ofBool (b ≤ a))
  | "==" => some (ofBool (a = b))
  | "!=" => some (ofBool (a ≠ b))
  | "&" => bitwise Nat.land
  | "^" => bitwise Nat.xor
  | "|" => bitwise Nat.lor
  | _ => none

/-- The number that the whole of a text spells, with blanks around it; a blank text is zero. -/
def textNumber? (s : String) : Option Int :=
  let isBlank (c : Char) : Bool := c == ' ' || ('\t' ≤ c && c ≤ '\r')
  let cs := s.toList.dropWhile isBlank
  let (negative, ds) := match cs with
    | '-' :: cs => (true, cs)
    | '+' :: cs => (false, cs)
    | cs => (false, cs)
  let (n, size) := numeral ds
  if cs = [] then some 0
  else if size = 0 ∨ (ds.drop size).any (!isBlank ·) then none
  else some (if negative then max (-(n : Int)) (-largest - 1) else min n largest)

/-- The value of a variable. -/
def valueOf (name : String) : Run Int := do
  let s := (← Run.value? name).getD ""
  match textNumber? s with
  | some n => return n
  | none => Run.refuse ("Illegal number: " ++ s)

/-- The value of an expression that was written in this way. -/
def evaluate (source : String) : Expression → Run Int
  | .number n => return n
  | .variable name => valueOf name
  | .unary operator a => do
    let n ← evaluate source a
    return match operator with
      | "-" => wrap (-n)
      | "~" => -n - 1
      | _ => ofBool (n = 0)
  | .binary operator a b => do
    let n ← evaluate source a
    let m ← evaluate source b
    combined operator n m
  | .both a b => do
    if (← evaluate source a) = 0 then return 0 else return ofBool ((← evaluate source b) ≠ 0)
  | .either a b => do
    if (← evaluate source a) ≠ 0 then return 1 else return ofBool ((← evaluate source b) ≠ 0)
  | .choice a b c => do
    if (← evaluate source a) ≠ 0 then evaluate source b else evaluate source c
  | .assign name operator a => do
    let n ← evaluate source a
    let n ← match operator with
      | none => pure n
      | some operator => combined operator (← valueOf name) n
    Run.assign name (toString n)
    return n
where
  /-- What an operator makes of two values. -/
  combined (operator : String) (a b : Int) : Run Int :=
    match combine? operator a b with
    | some n => return n
    | none => Run.refuse ("arithmetic expression: division by zero: \"" ++ source ++ "\"")

/-- The value of an expression that is given by its text. -/
def value (source : String) : Run Int :=
  match read source.toList with
  | .ok e => evaluate source e
  | .error message =>
    Run.refuse ("arithmetic expression: " ++ message ++ ": \"" ++ source ++ "\"")

end BuildLayout.Shell.Arithmetic
