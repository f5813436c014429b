/-! # Patterns

A pattern is a text in which `*` stands for any characters, `?` for one, and brackets for one of
several; a quoted character stands for itself.
-/

namespace BuildLayout.Shell

/-- Characters, each with a mark when it is quoted. -/
abbrev Pattern := List (Char × Bool)

namespace Pattern

/-- The characters of a pattern. -/
def chars (p : Pattern) : List Char := p.map Prod.fst

/-- Some character does not stand for itself. -/
def isSpecial (p : Pattern) : Bool :=
  p.any fun (c, quoted) => !quoted && (c == '*' || c == '?' || c == '[')

/-- The kinds of characters that have a name. -/
def classes : List (String × (Char → Bool)) := [
  ("alpha", Char.isAlpha), ("digit", Char.isDigit), ("alnum", Char.isAlphanum),
  ("upper", Char.isUpper), ("lower", Char.isLower),
  ("space", fun c => c == ' ' || ('\t' ≤ c && c ≤ '\r')),
  ("blank", fun c => c == ' ' || c == '\t'),
  ("punct", fun c => '!' ≤ c && c ≤ '~' && !c.isAlphanum),
  ("print", fun c => ' ' ≤ c && c ≤ '~'), ("graph", fun c => '!' ≤ c && c ≤ '~'),
  ("cntrl", fun c => c < ' ' || c == '\x7f'),
  ("xdigit", fun c => c.isDigit || ('a' ≤ c && c ≤ 'f') || ('A' ≤ c && c ≤ 'F'))]

/-- The kind whose name stands after a bracket and a colon, and how many characters spell it. -/
def class? (p : Pattern) : Option ((Char → Bool) × Nat) :=
  let name := p.chars.takeWhile Char.isAlpha
  match p.chars.drop name.length with
  | ':' :: ']' :: _ => (classes.lookup (String.ofList name)).map fun f => (f, name.length + 2)
  | _ => none

/-- The members of a set up to its bracket, and how many characters spell them. -/
def members? : (fuel : Nat) → (first : Bool) → Pattern → Option ((Char → Bool) × Nat)
  | 0, _, _ => none
  | _, _, [] => none
  | fuel + 1, first, (a, q) :: ps =>
    let more (isIn : Char → Bool) (size : Nat) : Option ((Char → Bool) × Nat) :=
      (members? fuel false (((a, q) :: ps).drop size)).map fun (others, n) =>
        (fun c => isIn c || others c, size + n)
    if a = ']' ∧ q = false ∧ first = false then some (fun _ => false, 1)
    else
      match a, ps with
      | '[', (':', _) :: rest =>
        match class? rest with
        | some (isIn, n) => more isIn (n + 2)
        | none => more (· == '[') 1
      | _, ('-', false) :: (b, _) :: _ =>
        if b = ']' then more (· == a) 1 else more (fun c => a ≤ c && c ≤ b) 3
      | _, _ => more (· == a) 1

/-- The class of a set after its opening bracket, and how many characters spell it. -/
def set? (p : Pattern) : Option ((Char → Bool) × Nat) :=
  match p with
  | ('!', false) :: ps =>
    (members? (p.length + 1) true ps).map fun (isIn, n) => (fun c => !isIn c, n + 1)
  | ps => members? (p.length + 1) true ps

/-- The text is of the form of the pattern. -/
def fits : Pattern → List Char → Bool
  | [], cs => cs.isEmpty
  | (p, quoted) :: ps, cs =>
    if quoted = false ∧ p = '*' then
      match cs with
      | [] => fits ps []
      | c :: rest => fits ps (c :: rest) || fits ((p, quoted) :: ps) rest
    else
      match cs with
      | [] => false
      | c :: rest =>
        if quoted = false ∧ p = '?' then fits ps rest
        else if quoted = false ∧ p = '[' then
          match set? ps with
          | some (isIn, n) => isIn c && fits (ps.drop n) rest
          | none => c == p && fits ps rest
        else c == p && fits ps rest
termination_by p cs => p.length + cs.length
decreasing_by all_goals simp; try omega

/-- What is left of a text when its shortest beginning of the form of the pattern, or the longest
one, is taken away; the text itself when there is none. -/
def dropStart (p : Pattern) (longest : Bool) (cs : List Char) : List Char :=
  let sizes := List.range (cs.length + 1)
  let sizes := if longest then sizes.reverse else sizes
  match sizes.find? fun n => p.fits (cs.take n) with
  | some n => cs.drop n
  | none => cs

/-- What is left of a text when its shortest or longest end of the form of the pattern is taken
away. -/
def dropEnd (p : Pattern) (longest : Bool) (cs : List Char) : List Char :=
  let sizes := List.range (cs.length + 1)
  let sizes := if longest then sizes else sizes.reverse
  match sizes.find? fun n => p.fits (cs.drop n) with
  | some n => cs.take n
  | none => cs

end Pattern

end BuildLayout.Shell
