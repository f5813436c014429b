import BuildLayout.Settings.Numeral

/-! # Text with escapes

Text between double quotes, as it is written in settings files and in the values of variables: a
back-slash and a letter stand for a control character, and `u` or `U` with four or eight digits for
any character.
-/

namespace BuildLayout.Settings

/-- A character that may stand as itself, its quotes apart: a tab or no control character. -/
def isVisible (c : Char) : Bool := c == '\t' || (0x20 ≤ c.toNat && c.toNat ≠ 0x7F)

/-- The character for a letter after a back-slash. -/
def shortEscape? (c : Char) : Option Char :=
  if c = '"' ∨ c = '\\' then some c
  else if c = 'b' then some '\x08'
  else if c = 'f' then some '\x0C'
  else if c = 'n' then some '\n'
  else if c = 'r' then some '\r'
  else if c = 't' then some '\t'
  else none

/-- The character that digits of base sixteen stand for, `n` of them. -/
def hexEscape? (n : Nat) (cs : List Char) : Option Char :=
  if (cs.take n).length = n then Numeral.codePoint? (cs.take n) else none

/-- What follows a back-slash: the character it stands for, and how many characters spell it. -/
def escape? : List Char → Option (Char × Nat)
  | [] => none
  | 'u' :: cs => (hexEscape? 4 cs).map (·, 5)
  | 'U' :: cs => (hexEscape? 8 cs).map (·, 9)
  | c :: _ => (shortEscape? c).map (·, 1)

/-- Reads a text between double quotes after the first of them; `done` holds the characters before,
last first. -/
def escapedText? (done : List Char) (cs : List Char) : Option (String × List Char) :=
  match cs with
  | [] => none
  | c :: cs =>
    if c = '"' then some (String.ofList done.reverse, cs)
    else if c = '\\' then
      match escape? cs with
      | none => none
      | some (ch, n) => escapedText? (ch :: done) (cs.drop n)
    else if isVisible c then escapedText? (c :: done) cs
    else none
termination_by cs.length
decreasing_by all_goals simp; try omega

end BuildLayout.Settings
