import BuildLayout.Shell.Pattern

/-! # Regular expressions

`Regex.read` reads an expression in the basic or in the extended notation, and `Regex.search` finds the
first place of a line where it fits, as long as it can be. Groups and references to them are known.
-/

namespace BuildLayout.Shell

/-- A regular expression. -/
inductive Regex where
  | empty
  | one (isIn : Char → Bool)
  | lineStart
  | lineEnd
  /-- Between a character of a word and another one, or not there. -/
  | edge (wanted : Bool)
  | wordStart
  | wordEnd
  | sequence (a b : Regex)
  | either (a b : Regex)
  | repeated (least : Nat) (most : Option Nat) (a : Regex)
  | group (n : Nat) (a : Regex)
  | reference (n : Nat)

namespace Regex

/-- A place in a line, with what the groups hold. -/
structure Place where
  /-- The character before. -/
  before : Option Char
  /-- How many characters were passed. -/
  passed : Nat
  rest : List Char
  groups : List (Nat × List Char)

/-- The place after a number of characters. -/
def Place.after (p : Place) (n : Nat) : Place :=
  { p with
    before := if n = 0 then p.before else p.rest[n - 1]?
    passed := p.passed + n
    rest := p.rest.drop n }

/-- A character of a word. -/
def isWord (c : Char) : Bool := c.isAlphanum || c == '_'

/-- The places that an expression leads to, the preferred ones first. -/
def places : (fuel : Nat) → Regex → Place → List Place
  | 0, _, _ => []
  | fuel + 1, r, p =>
    let inWord (c : Option Char) : Bool := c.any isWord
    let here (holds : Bool) : List Place := if holds then [p] else []
    match r with
    | .empty => [p]
    | .one isIn => match p.rest with
      | c :: _ => if isIn c then [p.after 1] else []
      | [] => []
    | .lineStart => here (p.passed = 0)
    | .lineEnd => here p.rest.isEmpty
    | .edge wanted => here ((inWord p.before != inWord p.rest.head?) == wanted)
    | .wordStart => here (!inWord p.before && inWord p.rest.head?)
    | .wordEnd => here (inWord p.before && !inWord p.rest.head?)
    | .sequence a b => (places fuel a p).flatMap (places fuel b)
    | .either a b => places fuel a p ++ places fuel b p
    | .repeated least most a =>
      let more := if most = some 0 then [] else
        (places fuel a p).flatMap fun q =>
          if q.passed = p.passed ∧ least = 0 then []
          else places fuel (.repeated (least - 1) (most.map (· - 1)) a) q
      if least = 0 then more ++ [p] else more
    | .group n a =>
      (places fuel a p).map fun q =>
        { q with groups := (n, p.rest.take (q.passed - p.passed)) :: q.groups.filter (·.1 ≠ n) }
    | .reference n =>
      let cs := (p.groups.lookup n).getD []
      here (cs.isPrefixOf p.rest) |>.map fun p => p.after cs.length

/-- The longest of the places that an expression leads to. -/
def longest (r : Regex) (p : Place) : Option Place :=
  (places (4 * p.rest.length + 400) r p).foldl (fun best q =>
    match best with
    | some b => if b.passed < q.passed then some q else best
    | none => some q) none

/-- The first place, from one on, where an expression fits: the characters before it, those that fit,
and the place after them. -/
def search (r : Regex) : (fuel : Nat) → Place → Option (Nat × Place)
  | 0, _ => none
  | fuel + 1, p =>
    match longest r p with
    | some q => some (p.passed, q)
    | none => if p.rest.isEmpty then none else search r fuel (p.after 1)

/-- The first place of a line where an expression fits. -/
def searchLine (r : Regex) (cs : List Char) : Option (Nat × Place) :=
  search r (cs.length + 1) ⟨none, 0, cs, []⟩

/-! ## Reading -/

/-- How an expression is written. -/
structure Style where
  extended : Bool
  /-- Upper and lower case are the same. -/
  folded : Bool

/-- What was read, what is left, and how many groups there were. -/
abbrev Read := Option (Regex × List Char × Nat)

/-- An expression for one character. -/
def literal (style : Style) (c : Char) : Regex :=
  .one fun d => if style.folded then d.toLower = c.toLower else d = c

/-- Reads a set after its opening bracket. -/
def set? (style : Style) (cs : List Char) : Option (Regex × List Char) :=
  let p : Pattern := cs.map (·, false)
  let (negated, p) := match p with
    | ('^', _) :: p => (true, p)
    | p => (false, p)
  (Pattern.members? (p.length + 1) true p).map fun (isIn, n) =>
    let isIn (c : Char) : Bool :=
      if style.folded then isIn c.toLower || isIn c.toUpper else isIn c
    (.one fun c => isIn c != negated, (p.drop n).map (·.1))

/-- What a letter after a back-slash stands for. -/
def escaped? (c : Char) : Option Regex :=
  match c with
  | 'w' => some (.one isWord)
  | 'W' => some (.one (!isWord ·))
  | 's' => some (.one fun c => c == ' ' || ('\t' ≤ c && c ≤ '\r'))
  | 'S' => some (.one fun c => !(c == ' ' || ('\t' ≤ c && c ≤ '\r')))
  | 'b' => some (.edge true)
  | 'B' => some (.edge false)
  | '<' => some .wordStart
  | '>' => some .wordEnd
  | 'n' => some (.one (· = '\n'))
  | 't' => some (.one (· = '\t'))
  | _ => none

/-- The numbers of a repetition: digits, a comma, and digits. -/
def bounds? (cs : List Char) : Option (Nat × Option Nat × List Char) :=
  let number (ds : List Char) : Nat := ds.foldl (fun n d => n * 10 + (d.toNat - 0x30)) 0
  let first := cs.takeWhile Char.isDigit
  match cs.drop first.length with
  | ',' :: rest =>
    let last := rest.takeWhile Char.isDigit
    some (number first, if last = [] then none else some (number last), rest.drop last.length)
  | rest => if first = [] then none else some (number first, some (number first), rest)

/-- The mark of a repetition that a text begins with. -/
def repetition? (style : Style) (cs : List Char) : Option (Nat × Option Nat × List Char) :=
  match style.extended, cs with
  | _, '*' :: cs => some (0, none, cs)
  | true, '+' :: cs => some (1, none, cs)
  | true, '?' :: cs => some (0, some 1, cs)
  | true, '\x7b' :: cs =>
    (bounds? cs).bind fun (a, b, cs) => if cs.head? = some '\x7d' then some (a, b, cs.drop 1) else none
  | false, '\\' :: '+' :: cs => some (1, none, cs)
  | false, '\\' :: '?' :: cs => some (0, some 1, cs)
  | false, '\\' :: '\x7b' :: cs =>
    (bounds? cs).bind fun (a, b, cs) =>
      if cs.take 2 = ['\\', '\x7d'] then some (a, b, cs.drop 2) else none
  | _, _ => none

/-- An expression with the marks of repetition after it. -/
def withRepetitions (style : Style) : (fuel : Nat) → Regex → List Char → Regex × List Char
  | 0, r, cs => (r, cs)
  | fuel + 1, r, cs =>
    match repetition? style cs with
    | some (a, b, rest) => withRepetitions style fuel (.repeated a b r) rest
    | none => (r, cs)

/-- What a text is when the mark of an operator is taken away. -/
def afterMark (style : Style) (mark : Char) (cs : List Char) : Option (List Char) :=
  match style.extended, cs with
  | true, c :: cs => if c = mark then some cs else none
  | false, '\\' :: c :: cs => if c = mark then some cs else none
  | _, _ => none

mutual

/-- Reads alternatives. `n` groups were read before, `depth` are open. -/
def alternatives (style : Style) : (fuel n depth : Nat) → List Char → Read
  | 0, _, _, _ => none
  | fuel + 1, n, depth, cs => do
    let (a, cs, n) ← sequenceFrom style fuel n depth true .empty cs
    match afterMark style '|' cs with
    | some cs =>
      let (b, cs, n) ← alternatives style fuel n depth cs
      return (.either a b, cs, n)
    | none => return (a, cs, n)

/-- Reads expressions that follow each other. -/
def sequenceFrom (style : Style) : (fuel n depth : Nat) → (first : Bool) → Regex → List Char → Read
  | 0, _, _, _, _, _ => none
  | fuel + 1, n, depth, first, done, cs => do
    let closes := 0 < depth && (afterMark style ')' cs).isSome
    if cs.isEmpty || closes || (afterMark style '|' cs).isSome then return (done, cs, n)
    else
      let (a, rest, n) ← atom style fuel n depth first cs
      let (a, rest) := withRepetitions style fuel a rest
      sequenceFrom style fuel n depth false (.sequence done a) rest

/-- Reads one expression. -/
def atom (style : Style) : (fuel n depth : Nat) → (first : Bool) → List Char → Read
  | 0, _, _, _, _ => none
  | fuel + 1, n, depth, first, cs =>
    match afterMark style '(' cs with
    | some cs => do
      let (a, cs, m) ← alternatives style fuel (n + 1) (depth + 1) cs
      let cs ← afterMark style ')' cs
      return (.group (n + 1) a, cs, m)
    | none =>
      match cs with
      | '\\' :: c :: cs =>
        if c.isDigit ∧ c ≠ '0' then some (.reference (c.toNat - 0x30), cs, n)
        else some ((escaped? c).getD (literal style c), cs, n)
      | '.' :: cs => some (.one fun _ => true, cs, n)
      | '[' :: cs => (set? style cs).map fun (r, cs) => (r, cs, n)
      | '^' :: cs => if first || style.extended then some (.lineStart, cs, n)
        else some (literal style '^', cs, n)
      | '$' :: cs =>
        let last := cs.isEmpty || (afterMark style ')' cs).isSome || (afterMark style '|' cs).isSome
        if last || style.extended then some (.lineEnd, cs, n) else some (literal style '$', cs, n)
      | c :: cs => some (literal style c, cs, n)
      | [] => none

end

/-- Reads a regular expression. -/
def read (style : Style) (cs : List Char) : Option Regex :=
  match alternatives style (8 * cs.length + 8) 0 0 cs with
  | some (r, [], _) => some r
  | _ => none

end Regex

end BuildLayout.Shell
