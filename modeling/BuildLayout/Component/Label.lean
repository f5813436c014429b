import BuildLayout.Text.Blank

/-! # Labels

`label name` is the text under which a field or class is shown: a leading `_` or `m_` is left out,
the first letter is upper case, and a space stands where a word or a number begins. Whether a space
stands before a character depends on what is to the right of it, so the text is scanned from its end
and `Ahead` carries what the scan knows about the characters passed.
-/

namespace BuildLayout

namespace Label

/-- An ASCII letter. -/
def isLetter (c : Char) : Bool := ('a' ≤ c && c ≤ 'z') || ('A' ≤ c && c ≤ 'Z')

/-- An ASCII letter in upper case. -/
def isUpper (c : Char) : Bool := 'A' ≤ c && c ≤ 'Z'

/-- An ASCII digit. -/
def isDigit (c : Char) : Bool := '0' ≤ c && c ≤ '9'

/-- A character that separates words by itself. -/
def isSpacer (c : Char) : Bool := Text.isBlank c || c == '_'

/-- An ASCII letter in upper case for the same letter in lower case; any other character is kept. -/
def upper (c : Char) : Char :=
  if 'a' ≤ c ∧ c ≤ 'z' then Char.ofNat (c.toNat - 0x20) else c

/-- What is known about the character to the right and the ones after it. -/
structure Ahead where
  letter : Bool
  upper : Bool
  digit : Bool
  /-- An upper-case letter before a letter in lower case. -/
  startsWord : Bool
  /-- A digit before a letter in lower case. -/
  startsNumberWord : Bool
deriving DecidableEq, Repr

namespace Ahead

/-- Nothing is to the right. -/
def none : Ahead := ⟨false, false, false, false, false⟩

/-- What is known once `c` is passed. -/
def pass (c : Char) (a : Ahead) : Ahead where
  letter := isLetter c
  upper := isUpper c
  digit := isDigit c
  startsWord := isUpper c && a.letter && !a.upper
  startsNumberWord := isDigit c && a.letter && !a.upper

end Ahead

/-- A space stands after `c`, given what is to the right of it. -/
def spaceAfter (c : Char) (a : Ahead) : Bool :=
  !isSpacer c &&
    ((isLetter c && !isUpper c && a.upper) ||
      (isLetter c && a.upper && a.startsWord) ||
      (isDigit c && a.startsWord) ||
      (!isDigit c && a.startsNumberWord) ||
      (isLetter c && !isUpper c && a.digit))

/-- The characters with the spaces between them, and what is known before the first of them. -/
def spaced : List Char → List Char × Ahead
  | [] => ([], .none)
  | c :: cs =>
    let (shown, ahead) := spaced cs
    let shown := if spaceAfter c ahead then ' ' :: shown else shown
    (c :: shown, ahead.pass c)

/-- The name without one leading `_`, or else without a leading `m_`. -/
def withoutPrefix : List Char → List Char
  | '_' :: cs => cs
  | 'm' :: '_' :: cs => cs
  | cs => cs

/-- The text with its first character in upper case. -/
def capitalized : List Char → List Char
  | [] => []
  | c :: cs => upper c :: cs

end Label

/-- The text under which a name is shown. -/
def label (name : String) : String :=
  String.ofList (Label.capitalized (Label.spaced (Label.withoutPrefix name.toList)).1)

end BuildLayout
