/-! # Reading a JSON text from left to right

A `Cursor` is what is left of a text together with the line and the byte column reached. A reader
takes a cursor and gives a `Step`: a value, the cursor after it, and the proof that something was
consumed, on which every loop of the readers ends. A `Fault` is a `Problem` with the place where it
was noticed: at the cursor (`Cursor.fault`) or one byte further, where the byte that does not fit
was looked at (`Cursor.faultPast`).
-/

namespace BuildLayout.Json

/-- What can be wrong with a text that should hold a value of a given form. -/
inductive Problem where
  | endInValue
  | endInString
  | endInList
  | endInObject
  | expectedValue
  | expectedWord
  | expectedColon
  | expectedObjectEnd
  | expectedListEnd
  | keyNotString
  | trailingComma
  | trailingCharacters
  | invalidNumber
  | numberOutOfRange
  | invalidEscape
  | endOfHexEscape
  | loneSurrogate
  | controlCharacter
  | tooDeep
  | duplicateField (name : String)
  | invalidType (found expected : String)
  | invalidLength (length : Nat) (expected : String)
  | noAlternative (kind : String)
deriving DecidableEq, Repr

/-- The wording of a problem. -/
def Problem.text : Problem → String
  | .endInValue => "EOF while parsing a value"
  | .endInString => "EOF while parsing a string"
  | .endInList => "EOF while parsing a list"
  | .endInObject => "EOF while parsing an object"
  | .expectedValue => "expected value"
  | .expectedWord => "expected ident"
  | .expectedColon => "expected `:`"
  | .expectedObjectEnd => "expected `,` or `\x7d`"
  | .expectedListEnd => "expected `,` or `]`"
  | .keyNotString => "key must be a string"
  | .trailingComma => "trailing comma"
  | .trailingCharacters => "trailing characters"
  | .invalidNumber => "invalid number"
  | .numberOutOfRange => "number out of range"
  | .invalidEscape => "invalid escape"
  | .endOfHexEscape => "unexpected end of hex escape"
  | .loneSurrogate => "lone leading surrogate in hex escape"
  | .controlCharacter => "control character (\\u0000-\\u001F) found while parsing a string"
  | .tooDeep => "recursion limit exceeded"
  | .duplicateField name => "duplicate field `" ++ name ++ "`"
  | .invalidType found expected => "invalid type: " ++ found ++ ", expected " ++ expected
  | .invalidLength length expected => s!"invalid length {length}, expected " ++ expected
  | .noAlternative kind => "data did not match any variant of untagged enum " ++ kind

/-- A problem and where it was noticed: the line, counted from one, and the bytes of that line up
to there. -/
structure Fault where
  problem : Problem
  line : Nat
  column : Nat
deriving DecidableEq, Repr

/-- The wording of a fault. -/
def Fault.message (f : Fault) : String :=
  f.problem.text ++ s!" at line {f.line} column {f.column}"

/-- What is left of a text, and the place reached in it. -/
structure Cursor where
  rest : List Char
  line : Nat
  column : Nat
deriving DecidableEq, Repr

namespace Cursor

/-- The beginning of a text. -/
def start (text : List Char) : Cursor := ⟨text, 1, 0⟩

/-- The number of characters left. -/
def left (c : Cursor) : Nat := c.rest.length

/-- The next character, not consumed. -/
def peek? (c : Cursor) : Option Char := c.rest.head?

/-- The cursor after a character that stands at this one. -/
def past (c : Cursor) (ch : Char) (rest : List Char) : Cursor :=
  if ch = '\n' then ⟨rest, c.line + 1, 0⟩ else ⟨rest, c.line, c.column + ch.utf8Size⟩

/-- A fault noticed at the cursor. -/
def fault (c : Cursor) (problem : Problem) : Fault := ⟨problem, c.line, c.column⟩

/-- The line and column `n` bytes after the beginning of `rest`; at the end of the text they stay
there. -/
def placeAfter (line column : Nat) : Nat → List Char → Nat × Nat
  | _, [] => (line, column)
  | n, ch :: rest =>
    if n < ch.utf8Size then (line, column + n)
    else if ch = '\n' then placeAfter (line + 1) 0 (n - ch.utf8Size) rest
    else placeAfter line (column + ch.utf8Size) (n - ch.utf8Size) rest

/-- A fault noticed `n` bytes after the cursor. -/
def faultAfter (c : Cursor) (n : Nat) (problem : Problem) : Fault :=
  let (line, column) := placeAfter c.line c.column n c.rest
  ⟨problem, line, column⟩

/-- A fault noticed at the next byte, which was looked at. -/
def faultPast (c : Cursor) (problem : Problem) : Fault := c.faultAfter 1 problem

/-- The number of bytes left. -/
def bytesLeft (c : Cursor) : Nat := c.rest.foldl (fun n ch => n + ch.utf8Size) 0

/-- The blanks of JSON. -/
def isBlank (ch : Char) : Bool := ch == ' ' || ch == '\n' || ch == '\t' || ch == '\r'

/-- The cursor after the blanks of `rest`. -/
def skipBlankFrom (line column : Nat) : List Char → Cursor
  | [] => ⟨[], line, column⟩
  | ch :: rest =>
    if isBlank ch then
      if ch = '\n' then skipBlankFrom (line + 1) 0 rest else skipBlankFrom line (column + 1) rest
    else ⟨ch :: rest, line, column⟩

/-- The cursor after the blanks that stand at it. -/
def skipBlank (c : Cursor) : Cursor := skipBlankFrom c.line c.column c.rest

/-- The cursor `n` characters further on the same line; all of them are ASCII. -/
def ahead (c : Cursor) (n : Nat) : Cursor := ⟨c.rest.drop n, c.line, c.column + n⟩

theorem left_past {c : Cursor} {ch : Char} {rest : List Char} (h : c.rest = ch :: rest) :
    (c.past ch rest).left < c.left := by
  unfold past left
  rw [h]
  split <;> simp

theorem left_skipBlankFrom (line column : Nat) (cs : List Char) :
    (skipBlankFrom line column cs).left ≤ cs.length := by
  induction cs generalizing line column with
  | nil => exact Nat.le_refl _
  | cons ch rest ih =>
    rw [skipBlankFrom]
    split
    · split
      · exact Nat.le_succ_of_le (ih _ _)
      · exact Nat.le_succ_of_le (ih _ _)
    · exact Nat.le_refl _

theorem left_skipBlank (c : Cursor) : c.skipBlank.left ≤ c.left :=
  left_skipBlankFrom _ _ _

theorem left_ahead (c : Cursor) (n : Nat) : (c.ahead n).left ≤ c.left := by
  simp [ahead, left]

end Cursor

/-- A value that was read, and the cursor after it. -/
structure Step (c : Cursor) (α : Type) where
  value : α
  next : Cursor
  shorter : next.left < c.left

namespace Step

/-- A step from a later cursor is one from an earlier cursor. -/
def ofLater {c d : Cursor} {α : Type} (h : d.left ≤ c.left) (s : Step d α) : Step c α :=
  ⟨s.value, s.next, Nat.lt_of_lt_of_le s.shorter h⟩

/-- The same step with another value. -/
def map {c : Cursor} {α β : Type} (f : α → β) (s : Step c α) : Step c β :=
  ⟨f s.value, s.next, s.shorter⟩

/-- A step goes on with what follows it. -/
def andThen {c : Cursor} {α β : Type} (s : Step c α) (t : Step s.next β) : Step c β :=
  ⟨t.value, t.next, Nat.lt_trans t.shorter s.shorter⟩

end Step

/-- The next character, consumed. -/
def Cursor.next? (c : Cursor) : Option (Step c Char) :=
  match h : c.rest with
  | [] => none
  | ch :: rest => some ⟨ch, c.past ch rest, Cursor.left_past h⟩

/-- The next character, consumed, when it is the given one. -/
def Cursor.eat? (c : Cursor) (ch : Char) : Option (Step c Unit) :=
  match c.next? with
  | some s => if s.value = ch then some (s.map fun _ => ()) else none
  | none => none

end BuildLayout.Json
