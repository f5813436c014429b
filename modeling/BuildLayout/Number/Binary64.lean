/-! # Binary floating-point numbers of 64 bits

A finite number is a sign, a significand of at most 53 bits and an exponent of two.
`roundRatio` gives the nearest such number to a quotient of naturals, a tie going to the even
significand; products and quotients of numbers are exact quotients rounded once. `ofDecimal` reads
`digits · 10 ^ exponent` the way a reader does that rounds after each step: the digits, then one
scaling by a power of ten (several when the power itself is out of range).
-/

namespace BuildLayout

/-- The number `± significand · 2 ^ exponent`. -/
structure Binary64 where
  negative : Bool
  significand : Nat
  exponent : Int
deriving DecidableEq, Repr

namespace Binary64

/-- Positive zero. -/
def zero : Binary64 := ⟨false, 0, 0⟩

/-- The same magnitude with the other sign. -/
def neg (x : Binary64) : Binary64 := { x with negative := !x.negative }

/-- Both zeros. -/
def isZero (x : Binary64) : Bool := x.significand == 0

/-- `num / den · 2 ^ (-e)` as a quotient of naturals. -/
def scaleDown (num den : Nat) (e : Int) : Nat × Nat :=
  if 0 ≤ e then (num, den * Nat.pow 2 e.toNat) else (num * Nat.pow 2 (-e).toNat, den)

/-- The natural nearest to a quotient, a tie going to the even one. -/
def nearestEven (num den : Nat) : Nat :=
  let q := num / den
  let r := num % den
  if 2 * r < den then q
  else if den < 2 * r then q + 1
  else if q % 2 = 0 then q else q + 1

/-- The exponent at which a quotient has a significand of 53 bits, or the least exponent. -/
def exponentOf (num den : Nat) : Int :=
  let guess : Int := (num.log2 : Int) - (den.log2 : Int) - 52
  let guess := max guess (-1074)
  let (n, d) := scaleDown num den guess
  let guess := if Nat.pow 2 53 * d ≤ n then guess + 1 else guess
  let (n, d) := scaleDown num den guess
  if n < Nat.pow 2 52 * d ∧ -1074 < guess then guess - 1 else guess

/-- The number nearest to `num / den`, or `none` when it is too large to be finite. -/
def roundRatio (num den : Nat) : Option Binary64 :=
  if num = 0 then some zero
  else
    let e := exponentOf num den
    let (n, d) := scaleDown num den e
    let m := nearestEven n d
    let (m, e) := if m = Nat.pow 2 53 then (Nat.pow 2 52, e + 1) else (m, e)
    if 971 < e then none
    else if m = 0 then some zero
    else some ⟨false, m, e⟩

/-- The magnitude of a number as a quotient. -/
def ratio (x : Binary64) : Nat × Nat :=
  if 0 ≤ x.exponent then (x.significand * Nat.pow 2 x.exponent.toNat, 1)
  else (x.significand, Nat.pow 2 (-x.exponent).toNat)

/-- The rounded product of two magnitudes. -/
def mul (x y : Binary64) : Option Binary64 :=
  roundRatio (x.ratio.1 * y.ratio.1) (x.ratio.2 * y.ratio.2)

/-- The rounded quotient of two magnitudes; the divisor is not zero. -/
def div (x y : Binary64) : Option Binary64 :=
  roundRatio (x.ratio.1 * y.ratio.2) (x.ratio.2 * y.ratio.1)

/-- The number nearest to a natural below `2 ^ 64`. -/
def ofNat (n : Nat) : Binary64 :=
  (roundRatio n 1).getD zero

/-- The greatest power of ten that is a finite number. -/
def maxPower : Nat := 308

/-- The number nearest to `10 ^ k`, for `k ≤ maxPower`. -/
def powerOfTen (k : Nat) : Binary64 :=
  (roundRatio (Nat.pow 10 k) 1).getD zero

/-- Divides by `10 ^ k`, in steps of at most `10 ^ maxPower`. -/
def divPower (x : Binary64) (k : Nat) : Binary64 :=
  if _h : maxPower < k then
    if x.isZero then x
    else divPower ((x.div (powerOfTen maxPower)).getD zero) (k - maxPower)
  else (x.div (powerOfTen k)).getD zero
termination_by k
decreasing_by simp [maxPower] at *; omega

/-- The magnitude of `digits · 10 ^ exponent`; `none` when it is too large to be finite. -/
def ofDecimal (digits : Nat) (exponent : Int) : Option Binary64 :=
  let x := ofNat digits
  if exponent < 0 then some (x.divPower (-exponent).toNat)
  else if exponent.toNat ≤ maxPower then x.mul (powerOfTen exponent.toNat)
  else if x.isZero then some x
  else none

end Binary64

end BuildLayout
