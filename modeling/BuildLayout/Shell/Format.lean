import BuildLayout.Number.Binary64
import BuildLayout.Shell.Arithmetic
import BuildLayout.Shell.Print

/-! # Printing by a format

`formatted` prints values by a format, which is used again as long as values are left. A value that is
missing counts as empty or as zero. What is wrong with a value is told in a warning and does not end
the printing; what is wrong with the format ends it.
-/

namespace BuildLayout.Shell

/-- How a value is laid out. -/
structure Slot where
  left : Bool := false
  zeros : Bool := false
  plus : Bool := false
  blank : Bool := false
  alternate : Bool := false
  width : Nat := 0
  precision : Option Nat := none

namespace Slot

/-- A text at its width. -/
def pad (f : Slot) (cs : List Char) : List Char :=
  let fill := List.replicate (f.width - cs.length) ' '
  if f.left then cs ++ fill else fill ++ cs

/-- The sign of a number. -/
def sign (f : Slot) (negative : Bool) : List Char :=
  if negative then ['-'] else if f.plus then ['+'] else if f.blank then [' '] else []

/-- A number at its width: zeros stand between what is before the digits and the digits. -/
def padNumber (f : Slot) (zeros : Bool) (before digits : List Char) : List Char :=
  if zeros && !f.left then
    before ++ List.replicate (f.width - digits.length - before.length) '0' ++ digits
  else f.pad (before ++ digits)

/-- The digits of a whole number. -/
def digits (f : Slot) (base n : Nat) : List Char :=
  let ds := if n = 0 ∧ f.precision = some 0 then [] else Nat.toDigits base n
  List.replicate (f.precision.getD 1 - ds.length) '0' ++ ds

/-- A whole number with a sign. -/
def signed (f : Slot) (n : Int) : List Char :=
  f.padNumber (f.zeros && f.precision.isNone) (f.sign (n < 0)) (f.digits 10 n.natAbs)

/-- A whole number without a sign, as a conversion writes it. -/
def unsigned (f : Slot) (conversion : Char) (n : Nat) : List Char :=
  let zeros := f.zeros && f.precision.isNone
  match conversion with
  | 'x' => f.padNumber zeros (if f.alternate && n ≠ 0 then ['0', 'x'] else []) (f.digits 16 n)
  | 'X' =>
    f.padNumber zeros (if f.alternate && n ≠ 0 then ['0', 'X'] else [])
      ((f.digits 16 n).map Char.toUpper)
  | 'o' =>
    let ds := f.digits 8 n
    f.padNumber zeros [] (if f.alternate && ds.head? ≠ some '0' then '0' :: ds else ds)
  | _ => f.padNumber zeros [] (f.digits 10 n)

end Slot

/-! ## Fractions -/

/-- A fraction with a number of places after the point. -/
def places (f : Slot) (count num den : Nat) : List Char :=
  let n := Binary64.nearestEven (num * Nat.pow 10 count) den
  let ds := Nat.toDigits 10 n
  let ds := List.replicate (count + 1 - ds.length) '0' ++ ds
  let whole := ds.take (ds.length - count)
  if count = 0 ∧ !f.alternate then whole else whole ++ '.' :: ds.drop (ds.length - count)

/-- The exponent of the first digit of a fraction that is not zero. -/
def leadingExponent (num den : Nat) : Int :=
  let size (n : Nat) : Int := (Nat.toDigits 10 n).length
  let guess := size num - size den
  let isBelow (e : Int) : Bool :=
    if 0 ≤ e then num < den * Nat.pow 10 e.toNat else num * Nat.pow 10 (-e).toNat < den
  if isBelow guess then guess - 1 else guess

/-- The digits of a fraction, one and a number of others, with the exponent of the first. -/
def scientificDigits (count num den : Nat) : List Char × Int :=
  if num = 0 then (List.replicate (count + 1) '0', 0)
  else
    let e := leadingExponent num den
    let shift : Int := count - e
    let n := if 0 ≤ shift then Binary64.nearestEven (num * Nat.pow 10 shift.toNat) den
      else Binary64.nearestEven num (den * Nat.pow 10 (-shift).toNat)
    let ds := Nat.toDigits 10 n
    if count + 1 < ds.length then (ds.take (count + 1), e + 1) else (ds, e)

/-- An exponent of ten as it is written: a sign and at least two digits. -/
def exponentText (e : Int) : List Char :=
  let ds := Nat.toDigits 10 e.natAbs
  'e' :: (if e < 0 then '-' else '+') :: (List.replicate (2 - ds.length) '0' ++ ds)

/-- Digits with a point after the first. -/
def pointed (f : Slot) (ds : List Char) : List Char :=
  match ds with
  | [] => []
  | [d] => if f.alternate then [d, '.'] else [d]
  | d :: ds => d :: '.' :: ds

/-- A fraction with an exponent. -/
def scientific (f : Slot) (count num den : Nat) : List Char :=
  let (ds, e) := scientificDigits count num den
  pointed f ds ++ exponentText e

/-- A text without zeros at its end, and without a point there. -/
def dropZeros (cs : List Char) : List Char :=
  if cs.contains '.' then
    let cs := (cs.reverse.dropWhile (· = '0')).reverse
    if cs.getLast? = some '.' then cs.dropLast else cs
  else cs

/-- A fraction with a number of digits, with an exponent where that is shorter. -/
def general (f : Slot) (count num den : Nat) : List Char :=
  let count := max count 1
  let (ds, e) := scientificDigits (count - 1) num den
  if -4 ≤ e ∧ e < count then
    let cs := places f ((count : Int) - 1 - e).toNat num den
    if f.alternate then cs else dropZeros cs
  else
    let cs := pointed f ds
    (if f.alternate then cs else dropZeros cs) ++ exponentText e

/-- A fraction as a conversion writes it. -/
def fraction (f : Slot) (conversion : Char) (negative : Bool) (num den : Nat) : List Char :=
  let count := f.precision.getD 6
  let cs := match conversion.toLower with
    | 'e' => scientific f count num den
    | 'g' => general f count num den
    | _ => places f count num den
  f.padNumber f.zeros (f.sign negative) (if conversion.isUpper then cs.map Char.toUpper else cs)

/-! ## Values -/

/-- What was printed so far. -/
structure Printing where
  /-- The characters, last first. -/
  out : List Char := []
  /-- The warnings, last first. -/
  warnings : List String := []
  /-- The values that are left. -/
  args : List String
  /-- Some value was wrong. -/
  failed : Bool := false
  /-- What is wrong with the format. -/
  fault : Option String := none
  /-- Nothing more is printed. -/
  ended : Bool := false

namespace Printing

/-- Prints characters. -/
def add (p : Printing) (cs : List Char) : Printing := { p with out := cs.reverse ++ p.out }

/-- Takes a value. -/
def next (p : Printing) : Option String × Printing := (p.args.head?, { p with args := p.args.drop 1 })

/-- Warns of a value. -/
def warn (p : Printing) (message : String) : Printing :=
  { p with warnings := message :: p.warnings, failed := true }

/-- Blanks that stand before a number. -/
def isSpace (c : Char) : Bool := c == ' ' || ('\t' ≤ c && c ≤ '\r')

/-- Takes a whole number between two others: its value without these bounds is given, and so is the
sign. A quote before a character gives its code. -/
def nextInt (p : Printing) (low high : Int) : Int × Printing :=
  match p.next with
  | (none, p) => (0, p)
  | (some s, p) =>
    match s.toList with
    | '\'' :: cs | '"' :: cs => (((cs.headD '\x00').toNat : Int), p)
    | cs =>
      let (negative, ds) := match cs.dropWhile isSpace with
        | '-' :: cs => (true, cs)
        | '+' :: cs => (false, cs)
        | cs => (false, cs)
      let (n, size) := Arithmetic.numeral ds
      let n : Int := if negative then -(n : Int) else n
      if cs = [] then (0, p)
      else if size = 0 then (0, p.warn (s ++ ": expected numeric value"))
      else if size < ds.length then
        (max low (min high n), p.warn (s ++ ": not completely converted"))
      else if n < low ∨ high < n then
        (max low (min high n), p.warn (s ++ ": Numerical result out of range"))
      else (n, p)

/-- Takes a fraction, rounded to a number of 64 bits. -/
def nextFraction (p : Printing) : (Bool × Nat × Nat) × Printing :=
  match p.next with
  | (none, p) => ((false, 0, 1), p)
  | (some s, p) =>
    let (negative, cs) := match s.toList.dropWhile isSpace with
      | '-' :: cs => (true, cs)
      | '+' :: cs => (false, cs)
      | cs => (false, cs)
    let whole := cs.takeWhile Char.isDigit
    let rest := cs.drop whole.length
    let (part, rest) := match rest with
      | '.' :: more => (more.takeWhile Char.isDigit, more.dropWhile Char.isDigit)
      | rest => ([], rest)
    let (e, rest) := match rest with
      | x :: more =>
        let (minus, ds) := match more with
          | '-' :: ds => (true, ds)
          | '+' :: ds => (false, ds)
          | ds => (false, ds)
        let n : Int := Arithmetic.ofDigits 10 (Arithmetic.digitsOf 10 ds)
        if (x = 'e' ∨ x = 'E') ∧ ds.head?.any Char.isDigit then
          (if minus then -n else n, ds.dropWhile Char.isDigit)
        else (0, rest)
      | [] => ((0 : Int), [])
    let digits := Arithmetic.ofDigits 10 (Arithmetic.digitsOf 10 (whole ++ part))
    let e := max (-400) (min 400 (e - part.length))
    let exact : Nat × Nat :=
      if 0 ≤ e then (digits * Nat.pow 10 e.toNat, 1) else (digits, Nat.pow 10 (-e).toNat)
    let value := ((Binary64.roundRatio exact.1 exact.2).map Binary64.ratio).getD exact
    if s = "" then ((false, 0, 1), p)
    else if whole = [] ∧ part = [] then ((false, 0, 1), p.warn (s ++ ": expected numeric value"))
    else if rest ≠ [] then ((negative, value), p.warn (s ++ ": not completely converted"))
    else ((negative, value), p)

/-- Prints the next value as a conversion says, which `spelled` spells. -/
def convert (p : Printing) (f : Slot) (conversion : Char) (spelled : List Char) : Printing :=
  let cut (cs : List Char) : List Char := match f.precision with
    | some n => cs.take n
    | none => cs
  if conversion = 's' then
    let (s, p) := p.next
    p.add (f.pad (cut (s.getD "").toList))
  else if conversion = 'b' then
    let (s, p) := p.next
    let cs := (s.getD "").toList
    let (cs, ended) := unescaped (cs.length + 1) cs
    { p.add (f.pad (cut cs)) with ended }
  else if conversion = 'c' then
    let (s, p) := p.next
    p.add (f.pad [(s.getD "").toList.headD '\x00'])
  else if conversion = 'd' ∨ conversion = 'i' then
    let (n, p) := p.nextInt (-Arithmetic.largest - 1) Arithmetic.largest
    p.add (f.signed n)
  else if "ouxX".toList.contains conversion then
    let most : Int := 18446744073709551615
    let (n, p) := p.nextInt (-most) most
    p.add (f.unsigned conversion (Arithmetic.bits n))
  else if "eEfFgG".toList.contains conversion then
    let ((negative, num, den), p) := p.nextFraction
    p.add (fraction f conversion negative num den)
  else
    { p with fault := some (String.ofList spelled ++ ": invalid directive"), ended := true }

/-- Reads a width or a precision, which may be a value. -/
def size (p : Printing) (cs : List Char) : Int × List Char × Printing :=
  match cs with
  | '*' :: rest =>
    let (n, p) := p.nextInt 0 2147483647
    (n, rest, p)
  | cs =>
    (((Arithmetic.ofDigits 10 (Arithmetic.digitsOf 10 cs) : Nat) : Int), cs.dropWhile Char.isDigit, p)

/-- Prints by what follows a percent sign in a format; what is left of it is given. -/
def directive (p : Printing) (cs : List Char) : Printing × List Char :=
  let isFlag (c : Char) : Bool := "#-+ 0".toList.contains c
  let flags := cs.takeWhile isFlag
  let (width, rest, p) := p.size (cs.drop flags.length)
  let (precision, rest, p) := match rest with
    | '.' :: rest =>
      let (n, rest, p) := p.size rest
      (some n.toNat, rest, p)
    | rest => (none, rest, p)
  match rest with
  | [] => ({ p with fault := some "missing format character", ended := true }, [])
  | conversion :: rest =>
    let f : Slot := {
      left := flags.contains '-'
      zeros := flags.contains '0'
      plus := flags.contains '+'
      blank := flags.contains ' '
      alternate := flags.contains '#'
      width := width.toNat
      precision }
    (p.convert f conversion ('%' :: cs.take (cs.length - rest.length)), rest)

/-- One pass over a format. -/
def pass : (fuel : Nat) → Printing → List Char → Printing
  | 0, p, _ => p
  | _, p, [] => p
  | fuel + 1, p, c :: cs =>
    if p.ended then p
    else if c = '\\' then
      let (c, n) := escapeAfter cs
      pass fuel (p.add [c]) (cs.drop n)
    else if c = '%' then
      if cs.head? = some '%' then pass fuel (p.add ['%']) (cs.drop 1)
      else
        let (p, rest) := p.directive cs
        pass fuel p rest
    else pass fuel (p.add [c]) cs

end Printing

/-- What is printed by a format that is used again as long as values are left. -/
def formatted (format : List Char) : (passes : Nat) → Printing → Printing
  | 0, p => p
  | passes + 1, p =>
    let before := p.args.length
    let p := Printing.pass (format.length + 1) p format
    if p.ended || p.args.isEmpty || p.args.length = before then p
    else formatted format passes p

end BuildLayout.Shell
