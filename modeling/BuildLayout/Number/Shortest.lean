import BuildLayout.Number.Binary64

/-! # The shortest decimal text of a binary number

`Binary64.shortest x` is the decimal `digits · 10 ^ exponent` with the fewest digits that lies among
the reals that round to `x`; of several it is the one nearest to `x`. For each count of digits the
two neighbours of `x` on the decimal grid are tested in exact arithmetic. `positional` and
`scientific` are the two ways of writing it.
-/

namespace BuildLayout

/-- The positive decimal `digits · 10 ^ exponent`. -/
structure Decimal where
  digits : Nat
  exponent : Int
deriving DecidableEq, Repr

/-- The same decimal without zeros at the end of its digits. -/
def Decimal.dropZeros (d : Decimal) : Decimal :=
  if _h : d.digits ≠ 0 ∧ d.digits % 10 = 0 then dropZeros ⟨d.digits / 10, d.exponent + 1⟩ else d
termination_by d.digits
decreasing_by simp at *; omega

namespace Binary64

/-- `10 ^ k` as a quotient. -/
def tenPower (k : Int) : Nat × Nat :=
  if 0 ≤ k then (Nat.pow 10 k.toNat, 1) else (1, Nat.pow 10 (-k).toNat)

/-- The ends of the reals that round to a number, as multiples of a quarter of its last place. -/
def quarterEnds (x : Binary64) : Nat × Nat :=
  let low := if x.significand = Nat.pow 2 52 ∧ -1074 < x.exponent then 4 * x.significand - 1
    else 4 * x.significand - 2
  (low, 4 * x.significand + 2)

/-- `digits · 10 ^ k` rounds to `x`; the ends count when the significand is even. -/
def readsBack (x : Binary64) (digits : Nat) (k : Int) : Bool :=
  let (low, high) := x.quarterEnds
  let (tn, td) := tenPower k
  let (bn, bd) := ratio ⟨false, 1, x.exponent - 2⟩
  -- compare digits · tn / td with low · bn / bd and high · bn / bd
  let value := digits * tn * bd
  let low := low * bn * td
  let high := high * bn * td
  if x.significand % 2 = 0 then low ≤ value && value ≤ high else low < value && value < high

/-- The position of the first decimal digit of a positive number: `10 ^ p ≤ x < 10 ^ (p + 1)`. -/
def leadingPosition (x : Binary64) : Int :=
  let (n, d) := x.ratio
  if d ≤ n then ((Nat.toDigits 10 (n / d)).length : Int) - 1
  else
    -- the least k with d ≤ n · 10 ^ k
    let k := (Nat.toDigits 10 (d / n)).length - 1
    if d ≤ n * Nat.pow 10 k then -(k : Int) else -((k : Int) + 1)

/-- The candidate of one grid: of the two neighbours that read back, the nearer one, and of two at
the same distance the even one. -/
def onGrid (x : Binary64) (k : Int) : Option Decimal :=
  let (n, d) := x.ratio
  let (tn, td) := tenPower k
  let num := n * td
  let den := d * tn
  let below := num / den
  let r := num % den
  let lowFits := below ≠ 0 && x.readsBack below k
  let highFits := x.readsBack (below + 1) k
  let nearLow := 2 * r < den || (2 * r = den && below % 2 = 0)
  if lowFits && (nearLow || !highFits) then some ⟨below, k⟩
  else if highFits then some ⟨below + 1, k⟩
  else none

/-- Seventeen digits always suffice; fewer are tried first. -/
def shortestFrom (x : Binary64) (p : Int) : Nat → Nat → Decimal
  | count, left + 1 =>
    match x.onGrid (p + 1 - count) with
    | some d => d
    | none => shortestFrom x p (count + 1) left
  | count, 0 =>
    let (n, d) := x.ratio
    let (tn, td) := tenPower (p + 1 - count)
    ⟨nearestEven (n * td) (d * tn), p + 1 - count⟩

/-- The shortest decimal that reads back as the magnitude of a number other than zero. -/
def shortest (x : Binary64) : Decimal :=
  (x.shortestFrom x.leadingPosition 1 16).dropZeros

end Binary64

namespace Decimal

/-- The digits of the significand, first to last. -/
def chars (d : Decimal) : List Char := Nat.toDigits 10 d.digits

/-- The number of digits before the decimal point when it is written positionally. -/
def pointPosition (d : Decimal) : Int := (d.chars.length : Int) + d.exponent

/-- Positional notation; `whole` is appended when there is no fraction. -/
def positional (d : Decimal) (whole : String) : String :=
  let cs := d.chars
  let p := d.pointPosition
  if 0 ≤ d.exponent then
    String.ofList (cs ++ List.replicate d.exponent.toNat '0') ++ whole
  else if 0 < p then
    String.ofList (cs.take p.toNat ++ '.' :: cs.drop p.toNat)
  else
    String.ofList ('0' :: '.' :: List.replicate (-p).toNat '0' ++ cs)

/-- One digit before the point and a signed power of ten. -/
def scientific (d : Decimal) : String :=
  let e := d.pointPosition - 1
  let mantissa := match d.chars with
    | [] => []
    | [c] => [c]
    | c :: cs => c :: '.' :: cs
  let sign := if 0 ≤ e then "+" else "-"
  String.ofList mantissa ++ "e" ++ sign ++ toString e.natAbs

end Decimal

namespace Binary64

/-- The sign as text. -/
def signText (x : Binary64) : String := if x.negative then "-" else ""

/-- A number in a JSON text: positional from `1e-5` up to below `1e16`, always with a fraction or an
exponent. -/
def toJsonText (x : Binary64) : String :=
  if x.isZero then x.signText ++ "0.0"
  else
    let d := x.shortest
    let p := d.pointPosition
    if -5 < p ∧ p ≤ 16 then x.signText ++ d.positional ".0" else x.signText ++ d.scientific

/-- A number as plain text: always positional, without a fraction when it is whole. -/
def toPlainText (x : Binary64) : String :=
  if x.isZero then x.signText ++ "0" else x.signText ++ x.shortest.positional ""

end Binary64

end BuildLayout
