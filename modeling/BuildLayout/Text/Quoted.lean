import BuildLayout.Text.Unprintable

/-! # Quoted text

`quoted s` is `s` between double quotes, with a back-slash before quotes and back-slashes, letters
for the usual controls and code points in braces for everything that is not shown as itself.
-/

namespace BuildLayout.Text

/-- A digit of a number in base sixteen, in lower case. -/
def hexDigit (n : Nat) : Char :=
  if n < 10 then Char.ofNat (0x30 + n) else Char.ofNat (0x57 + n)

/-- The number in base sixteen, without leading zeros. -/
def hex (n : Nat) : List Char :=
  if _h : n < 16 then [hexDigit n] else hex (n / 16) ++ [hexDigit (n % 16)]
termination_by n

/-- How one character stands in a quoted text; `mark` is the quote that needs a back-slash. -/
def quotedChar (mark c : Char) : List Char :=
  if c = '\x00' then ['\\', '0']
  else if c = '\t' then ['\\', 't']
  else if c = '\r' then ['\\', 'r']
  else if c = '\n' then ['\\', 'n']
  else if c = '\\' then ['\\', '\\']
  else if c = mark then ['\\', mark]
  else if isPrintable c then [c]
  else '\\' :: 'u' :: '\x7b' :: hex c.toNat ++ ['\x7d']

/-- The text between double quotes. -/
def quoted (s : String) : String :=
  String.ofList ('"' :: s.toList.flatMap (quotedChar '"') ++ ['"'])

/-- The character between single quotes. -/
def quotedSingle (c : Char) : String :=
  String.ofList ('\'' :: quotedChar '\'' c ++ ['\''])

end BuildLayout.Text
