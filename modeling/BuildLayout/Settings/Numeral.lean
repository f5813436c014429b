import BuildLayout.Settings.Value
import BuildLayout.Text.Pieces

/-! # Numerals

What the spelling of a number stands for. `digits?` reads decimal digits and `grouped?` digits of
any base between which single underscores may stand; `real?` reads a decimal fraction, which
`nearest` rounds once to the nearest binary number.
-/

namespace BuildLayout.Settings.Numeral

/-- A decimal digit. -/
def isDigit (c : Char) : Bool := '0' ≤ c && c ≤ '9'

/-- The value of a digit in base sixteen. -/
def hexValue? (c : Char) : Option Nat :=
  if '0' ≤ c ∧ c ≤ '9' then some (c.toNat - 0x30)
  else if 'a' ≤ c ∧ c ≤ 'f' then some (c.toNat - 0x57)
  else if 'A' ≤ c ∧ c ≤ 'F' then some (c.toNat - 0x37)
  else none

/-- The number that digits spell in a base; `none` when one is no digit of it. -/
def natInBase? (base : Nat) (cs : List Char) : Option Nat :=
  cs.foldlM
    (fun n c => (hexValue? c).bind fun d => if d < base then some (n * base + d) else none) 0

/-- The number of decimal digits. -/
def natOf (ds : List Char) : Nat := ds.foldl (fun n d => n * 10 + (d.toNat - 0x30)) 0

/-- The number of one or more decimal digits. -/
def digits? (cs : List Char) : Option Nat :=
  if cs ≠ [] ∧ cs.all isDigit then some (natOf cs) else none

/-- A text without a sign at its beginning, and whether the sign is a minus. -/
def dropSign : List Char → Bool × List Char
  | '+' :: cs => (false, cs)
  | '-' :: cs => (true, cs)
  | cs => (false, cs)

/-- The digits of a numeral without the underscores, each of which stands between two digits. -/
def grouped? (digit : Char → Bool) (cs : List Char) : Option (List Char) :=
  let groups := Text.splitOn '_' cs
  if groups.all fun g => g ≠ [] && g.all digit then some groups.flatten else none

/-- The greatest power of ten that needs to be told apart from greater ones. -/
def exponentLimit : Nat := 20000

/-- The number nearest to `digits · 10 ^ exponent`. -/
def nearest (negative : Bool) (digits : Nat) (exponent : Int) : Scalar :=
  let size := (Nat.toDigits 10 digits).length + exponent
  let x? : Option Binary64 :=
    if digits = 0 ∨ size < -400 then some .zero
    else if 400 < size then none
    else if 0 ≤ exponent then Binary64.roundRatio (digits * Nat.pow 10 exponent.toNat) 1
    else Binary64.roundRatio digits (Nat.pow 10 (-exponent).toNat)
  match x? with
  | none => .infinite negative
  | some x => .real { x with negative }

/-- A character that begins an exponent. -/
def isExponentMark (c : Char) : Bool := c == 'e' || c == 'E'

/-- The power of ten after the letter of an exponent; nothing stands for one. -/
def exponent? : List Char → Option Int
  | [] => some 0
  | c :: cs =>
    if isExponentMark c then
      let (negative, ds) := dropSign cs
      (digits? ds).map fun n =>
        let n := min n exponentLimit
        if negative then -(n : Int) else n
    else none

/-- A decimal number, with a fraction or an exponent or without. -/
def real? (cs : List Char) : Option Scalar :=
  let (negative, cs) := dropSign cs
  let whole := cs.takeWhile isDigit
  let (fraction, rest) := match cs.dropWhile isDigit with
    | '.' :: cs => (cs.takeWhile isDigit, cs.dropWhile isDigit)
    | cs => ([], cs)
  if whole = [] ∧ fraction = [] then none
  else
    (exponent? rest).map fun e =>
      nearest negative (natOf (whole ++ fraction)) (e - fraction.length)

/-- The character with a code point given by digits in base sixteen. -/
def codePoint? (ds : List Char) : Option Char :=
  (natInBase? 16 ds).bind fun n =>
    if n < 0x110000 ∧ ¬(0xD800 ≤ n ∧ n ≤ 0xDFFF) then some (Char.ofNat n) else none

end BuildLayout.Settings.Numeral
