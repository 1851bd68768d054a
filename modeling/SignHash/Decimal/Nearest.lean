import SignHash.Double

/-!
# The nearest binary64 number

A decimal number is rounded to the nearest binary64 number in exact arithmetic; of two that are
equally near, the one with an even fraction wins, and what would round past the largest finite
number has none. The finite patterns without a sign bit, taken as natural numbers, are in the order
of their values, so rounding finds a pattern directly.
-/

namespace SignHash.Decimal

/-- The natural number nearest to `num / den`, of two the even one. -/
def roundDiv (num den : Nat) : Nat :=
  let whole := num / den
  let twice := 2 * (num % den)
  if twice < den ∨ (twice = den ∧ whole % 2 = 0) then whole else whole + 1

/-- The exponent of the smallest positive number: it is `1 / 2 ^ 1074`. -/
def leastExponent : Nat := 1074

/-- The number of fractions: `2 ^ 52`. -/
def fractionCount : Nat := 0x10000000000000

/-- The pattern of positive infinity: all patterns below it are finite. -/
def infinityPattern : Nat := 0x7ff0000000000000

/-- The pattern of the finite number nearest to `num / den`, for a positive `den`.

In units of the smallest number the value is `num * 2 ^ 1074 / den`. Up to `2 ^ 53` the units
themselves are the patterns. Beyond, a pattern keeps fifty-three bits of the value, and each power
of two left out adds one to the exponent field; rounding up to the next power of two carries into
it. -/
def nearestPattern? (num den : Nat) : Option Nat :=
  let scaled := num * Nat.pow 2 leastExponent
  let shift := (scaled / den).log2 - 52
  let pattern := shift * fractionCount + roundDiv scaled (den * Nat.pow 2 shift)
  if pattern < infinityPattern then some pattern else none

/-- The pattern of the finite number nearest to `coefficient * 10 ^ exponent`.

Exponents so large that the value is out of range, or so small that it rounds to zero, are settled
before any power of ten is computed. -/
def nearestDecimal? (coefficient : Nat) (exponent : Int) : Option Nat :=
  if coefficient = 0 then some 0
  else
    match exponent with
    | .ofNat e => if 400 < e then none else nearestPattern? (coefficient * Nat.pow 10 e) 1
    | .negSucc k =>
      if coefficient.log2 + 1100 ≤ k then some 0
      else nearestPattern? coefficient (Nat.pow 10 (k + 1))

/-- The finite binary64 number nearest to `± coefficient * 10 ^ exponent`. -/
def toDouble? (negative : Bool) (coefficient : Nat) (exponent : Int) : Option Double :=
  (nearestDecimal? coefficient exponent).map fun pattern =>
    ⟨UInt64.ofNat pattern ||| if negative then Double.signMask else 0⟩

end SignHash.Decimal
