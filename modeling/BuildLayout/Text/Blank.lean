/-! # Blank characters

`isBlank` decides the Unicode property White_Space; `trim` removes blank characters at both ends.
`isAsciiBlank` is its restriction to the five ASCII separators that configuration values may be
padded with.
-/

namespace BuildLayout.Text

/-- A character with the Unicode property White_Space. -/
def isBlank (c : Char) : Bool :=
  let n := c.toNat
  (0x09 ≤ n && n ≤ 0x0D) || n == 0x20 || n == 0x85 || n == 0xA0 || n == 0x1680 ||
    (0x2000 ≤ n && n ≤ 0x200A) || n == 0x2028 || n == 0x2029 || n == 0x202F || n == 0x205F ||
    n == 0x3000

/-- Space, tab, line feed, form feed and carriage return. -/
def isAsciiBlank (c : Char) : Bool :=
  c == ' ' || c == '\t' || c == '\n' || c == '\x0C' || c == '\r'

/-- The text without the characters of a class at its end. -/
def dropEndWhile (p : Char → Bool) (cs : List Char) : List Char :=
  (cs.reverse.dropWhile p).reverse

/-- The text without blank characters at either end. -/
def trimChars (cs : List Char) : List Char :=
  dropEndWhile isBlank (cs.dropWhile isBlank)

/-- The text without blank characters at either end. -/
def trim (s : String) : String :=
  String.ofList (trimChars s.toList)

/-- A text with nothing but blank characters. -/
def isAllBlank (s : String) : Bool :=
  s.toList.all isBlank

end BuildLayout.Text
