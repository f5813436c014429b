import BuildLayout.Shell.Syntax

/-! # Reading a script character by character

A `Source` is what is left of a script, with the number of the line. The readers of a script are
computations that change a source or refuse it with a `SyntaxFault`. A back-slash before a newline
joins two lines, and `Source.peek?` looks past it.
-/

namespace BuildLayout.Shell

/-- A token of a script. -/
inductive Token where
  | word (w : Word)
  | keyword (s : String)
  | operator (s : String)
  /-- What connects a channel to a file; the word for the file comes after it. -/
  | redirect (channel : Nat) (operator : String)
  | newline
  /-- The end of the script. -/
  | ends

/-- How a message names a token. -/
def Token.shown : Token → String
  | .word _ => "word"
  | .keyword s => "\"" ++ s ++ "\""
  | .operator s => "\"" ++ s ++ "\""
  | .redirect _ _ => "redirection"
  | .newline => "newline"
  | .ends => "end of file"

/-- The token is this operator. -/
def Token.isOperator (s : String) : Token → Bool
  | .operator t => s == t
  | _ => false

/-- The token is this keyword. -/
def Token.isKeyword (s : String) : Token → Bool
  | .keyword t => s == t
  | _ => false

/-- A token with which a list of commands ends. -/
def Token.endsList : Token → Bool
  | .ends => true
  | .operator s => [")", ";;"].contains s
  | .keyword s => ["do", "done", "elif", "else", "esac", "fi", "then", "\x7d"].contains s
  | _ => false

/-- A text in place of the input that was announced and is yet to be read: it ends before the line
with the mark. -/
structure Awaited where
  id : Nat
  mark : List Char
  /-- Tabs at the beginning of a line do not count. -/
  strip : Bool
  /-- It is taken as it stands. -/
  literal : Bool

/-- Another name whose text was put in place of it. -/
structure Opened where
  name : String
  /-- The number of characters after its text. -/
  left : Nat
  /-- Its text ends with a blank, so that the word after it may be another name, too. -/
  blank : Bool

/-- What is left of a script. -/
structure Source where
  rest : List Char
  line : Nat := 1
  /-- A token that was read and put back. -/
  pushed : Option Token := none
  awaited : List Awaited := []
  /-- Other names of commands, with their texts. -/
  aliases : List (String × String) := []
  opened : List Opened := []
  /-- The texts in place of the input that were read. -/
  documents : List (Nat × Word) := []
  nextDocument : Nat := 0

/-- Why a script cannot be read, and on which line. -/
structure SyntaxFault where
  line : Nat
  message : String
deriving DecidableEq, Repr

/-- A reader of a script. -/
abbrev Parse := StateT Source (Except SyntaxFault)

namespace Source

/-- Refuses what is read. -/
def refuse {α : Type} (message : String) : Parse α := do throw ⟨(← get).line, message⟩

/-- Refuses a token in place of another. -/
def unexpected {α : Type} (found : Token) (expected : Option String) : Parse α :=
  refuse (found.shown ++ " unexpected" ++
    (match expected with
      | some s => " (expecting " ++ s ++ ")"
      | none => ""))

/-- The text after the joints of lines at its beginning, and their number. -/
def joined : List Char → Nat → List Char × Nat
  | '\\' :: '\n' :: cs, n => joined cs (n + 1)
  | cs, n => (cs, n)

/-- The next character. -/
def peek? : Parse (Option Char) := do
  let s ← get
  let (rest, n) := joined s.rest 0
  set { s with rest, line := s.line + n }
  return rest.head?

/-- Passes a character over. -/
def advance : Parse Unit := modify fun s =>
  { s with
    rest := s.rest.drop 1
    line := if s.rest.head? = some '\n' then s.line + 1 else s.line }

/-- Passes the next character over if it is the given one. -/
def skip? (c : Char) : Parse Bool := do
  if (← peek?) = some c then
    advance
    return true
  else return false

/-- Takes the characters up to one of the given kind, without joining lines. -/
def takeUntil (ends : Char → Bool) : Parse (List Char) := do
  let s ← get
  let cs := s.rest.takeWhile fun c => !ends c
  set { s with
    rest := s.rest.drop cs.length
    line := s.line + (cs.filter (· = '\n')).length }
  return cs

/-- Takes the characters of a kind; lines are joined. -/
def takeWhile (isIn : Char → Bool) : (fuel : Nat) → Parse (List Char)
  | 0 => return []
  | fuel + 1 => do
    match ← peek? with
    | none => return []
    | some c =>
      if isIn c then
        advance
        return c :: (← takeWhile isIn fuel)
      else return []

/-- Passes a newline over as if it stood on no line. -/
def skipUncounted : Parse Unit := do
  if (← peek?) = some '\n' then modify fun s => { s with rest := s.rest.drop 1 }

/-- Puts the text of another name in place of it, unless that is what is being read. -/
def openAlias? (name : List Char) : Parse Bool := do
  let s ← get
  match s.aliases.lookup (String.ofList name) with
  | none => return false
  | some text => do
    let n := s.rest.length
    let opened := s.opened.filter (·.left ≤ n)
    if opened.any (·.name = String.ofList name) then return false
    else
      let last := text.toList.getLast?
      let one : Opened := ⟨String.ofList name, n, last = some ' ' || last = some '\t'⟩
      set { s with rest := text.toList ++ s.rest, opened := one :: opened }
      return true

/-- Whether a word follows the text of another name that ends with a blank; `before` is the number of
characters that were left before the word was read. -/
def followsAlias (before : Nat) : Parse Bool := do
  let s ← get
  if s.opened.isEmpty then return false
  else
    let n := s.rest.length
    return s.opened.any fun o => o.blank && o.left < before && n < o.left

/-- The number of steps that no reader exceeds. -/
def fuel (s : Source) : Nat :=
  16 * s.rest.length * s.aliases.foldl (fun n a => n + a.2.length) 1 + 64

/-- Puts a token back. -/
def putBack (t : Token) : Parse Unit := modify fun s => { s with pushed := some t }

end Source

end BuildLayout.Shell
