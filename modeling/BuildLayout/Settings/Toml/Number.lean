import BuildLayout.Settings.Toml.Text

/-! # Words, numbers and dates of a TOML document

A value that is neither quoted nor in brackets is a run of characters up to a blank, a comma, a
closing bracket or a comment. Only a date with a time may have a blank inside.
-/

namespace BuildLayout.Settings.Toml

/-- A character that ends a value without quotes or brackets. -/
def isEnd (c : Char) : Bool :=
  isBlank c || c == '\n' || c == '\r' || c == ',' || c == ']' || c == '\x7d' || c == '#'

/-- Decimal digits of a whole number, underscores dropped: no zero stands before another digit. -/
def wholeDigits? (cs : List Char) : Option (List Char) :=
  (Numeral.grouped? Numeral.isDigit cs).bind fun ds =>
    if ds.head? = some '0' ∧ ds.length ≠ 1 then none else some ds

/-- A whole number that fits in 64 bits with its sign. -/
def signed? (negative : Bool) (n : Nat) : Option Scalar :=
  if negative then if n ≤ Nat.pow 2 63 then some (.signed (-(n : Int))) else none
  else if n < Nat.pow 2 63 then some (.signed n) else none

/-- A whole number in decimal digits. -/
def decimal? (cs : List Char) : Option Scalar :=
  let (negative, cs) := Numeral.dropSign cs
  (wholeDigits? cs).bind fun ds => signed? negative (Numeral.natOf ds)

/-- A digit of a base up to sixteen. -/
def isDigitOf (base : Nat) (c : Char) : Bool := (Numeral.natInBase? base [c]).isSome

/-- A whole number in another base, after the letters that name it. -/
def inBase? (base : Nat) (cs : List Char) : Option Scalar := do
  let ds ← Numeral.grouped? (isDigitOf base) cs
  let n ← Numeral.natInBase? base ds
  signed? false n

/-- A whole number. -/
def integer? : List Char → Option Scalar
  | '0' :: 'x' :: cs => inBase? 16 cs
  | '0' :: 'o' :: cs => inBase? 8 cs
  | '0' :: 'b' :: cs => inBase? 2 cs
  | cs => decimal? cs

/-- The digits of an exponent with its letter and sign, underscores dropped. -/
def exponentDigits? : List Char → Option (List Char)
  | [] => some []
  | mark :: cs =>
    let sign := cs.takeWhile fun c => c = '+' ∨ c = '-'
    if sign.length ≤ 1 then
      (Numeral.grouped? Numeral.isDigit (cs.drop sign.length)).map fun ds => mark :: sign ++ ds
    else none

/-- The digits of a fraction with its point, underscores dropped. -/
def fractionDigits? : List Char → Option (List Char)
  | [] => some []
  | point :: cs => (Numeral.grouped? Numeral.isDigit cs).map (point :: ·)

/-- A number with a fraction or an exponent; one that is too large has to be negative. -/
def real? (cs : List Char) : Option Scalar := do
  let (negative, cs) := Numeral.dropSign cs
  let isWhole c := c ≠ '.' && !Numeral.isExponentMark c
  let isFraction c := !Numeral.isExponentMark c
  let rest := cs.dropWhile isWhole
  if rest = [] then none
  let whole ← wholeDigits? (cs.takeWhile isWhole)
  let fraction ← fractionDigits? (rest.takeWhile isFraction)
  let exponent ← exponentDigits? (rest.dropWhile isFraction)
  let number ← Numeral.real? ((if negative then ['-'] else []) ++ whole ++ fraction ++ exponent)
  if number = .infinite false then none else some number

/-- The numbers that are spelled as words. -/
def namedNumber? (cs : List Char) : Option Scalar :=
  let (negative, cs) := Numeral.dropSign cs
  if cs = "inf".toList then some (.infinite negative)
  else if cs = "nan".toList then some .notANumber
  else none

/-! ## Dates and times -/

/-- A number of two digits. -/
def twoDigits? (a b : Char) : Option Nat := Numeral.digits? [a, b]

/-- The year is a leap year. -/
def isLeapYear (year : Nat) : Bool := year % 4 == 0 && (year % 100 ≠ 0 || year % 400 == 0)

/-- The number of days of a month. -/
def daysIn (year month : Nat) : Nat :=
  if month = 2 then if isLeapYear year then 29 else 28
  else if month ∈ [4, 6, 9, 11] then 30
  else 31

/-- A day of the calendar. -/
def isDate : List Char → Bool
  | [y₁, y₂, y₃, y₄, '-', m₁, m₂, '-', d₁, d₂] =>
    match Numeral.digits? [y₁, y₂, y₃, y₄], twoDigits? m₁ m₂, twoDigits? d₁ d₂ with
    | some year, some month, some day =>
      1 ≤ month && month ≤ 12 && 1 ≤ day && day ≤ daysIn year month
    | _, _, _ => false
  | _ => false

/-- An hour and a minute. -/
def isHourMinute (h₁ h₂ m₁ m₂ : Char) : Bool :=
  match twoDigits? h₁ h₂, twoDigits? m₁ m₂ with
  | some hour, some minute => hour ≤ 23 && minute ≤ 59
  | _, _ => false

/-- The distance of a time zone. -/
def isOffset : List Char → Bool
  | [] => true
  | [z] => z == 'Z' || z == 'z'
  | [sign, h₁, h₂, ':', m₁, m₂] => (sign == '+' || sign == '-') && isHourMinute h₁ h₂ m₁ m₂
  | _ => false

/-- A time of day, with a time zone where there may be one. -/
def isTime (zoned : Bool) : List Char → Bool
  | h₁ :: h₂ :: ':' :: m₁ :: m₂ :: ':' :: s₁ :: s₂ :: cs =>
    let second := (twoDigits? s₁ s₂).any (· ≤ 60)
    let zone := match cs with
      | '.' :: cs =>
        if (cs.takeWhile Numeral.isDigit) = [] then none else some (cs.dropWhile Numeral.isDigit)
      | cs => some cs
    isHourMinute h₁ h₂ m₁ m₂ && second && zone.any fun z => z = [] || zoned && isOffset z
  | _ => false

/-- The number of characters of a date. -/
def dateLength : Nat := 10

/-- A date, a date with a time after it, or a time. -/
def isDateTime (cs : List Char) : Bool :=
  if isDate (cs.take dateLength) then
    match cs.drop dateLength with
    | [] => true
    | c :: time => (c == 'T' || c == 't') && isTime true time
  else isTime false cs

/-- A date or a time is a table that holds its text under this key. -/
def dateKey : String := "$__toml_private_datetime"

/-- A date or a time as a value. -/
def dateValue (cs : List Char) : Value :=
  .table .file [(dateKey, .scalar .file (.text (String.ofList cs)))]

/-! ## Words -/

/-- What a run of characters without quotes or brackets stands for. -/
def word? (cs : List Char) : Option Value :=
  if cs = "true".toList then some (.scalar .file (.flag true))
  else if cs = "false".toList then some (.scalar .file (.flag false))
  else if isDateTime cs then some (dateValue cs)
  else (((real? cs).or (integer? cs)).or (namedNumber? cs)).map (.scalar .file)

/-- Reads a value without quotes or brackets. After a date and one blank a time may follow. -/
def wordAt? (cs : List Char) : Option (Value × List Char) :=
  let word := cs.takeWhile fun c => !isEnd c
  let rest := cs.dropWhile fun c => !isEnd c
  let time := (rest.drop 1).takeWhile fun c => !isEnd c
  if isDate word && rest.head? = some ' ' && isTime true time then
    some (dateValue (word ++ ' ' :: time), rest.drop (time.length + 1))
  else (word? word).map (·, rest)

end BuildLayout.Settings.Toml
