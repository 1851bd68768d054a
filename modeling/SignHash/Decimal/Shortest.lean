import SignHash.Decimal.Nearest

/-!
# The shortest digits that read back

The digits of a positive finite number are the fewest that `nearestPattern?` turns back into it,
and of those the nearest to it. Numbers of `n` digits with the decimal point in a fixed place form
a grid; only the two neighbours of the value on the grid can be the nearest, so each grid, from one
digit to seventeen, is tried with these two.
-/

namespace SignHash.Decimal

/-- The value of a pattern without a sign bit, as numerator and denominator. -/
def ratioOfPattern (pattern : Nat) : Nat × Nat :=
  let field := pattern / fractionCount
  let fraction := pattern % fractionCount
  if field = 0 then (fraction, Nat.pow 2 leastExponent)
  else if field ≤ leastExponent + 1 then
    (fractionCount + fraction, Nat.pow 2 (leastExponent + 1 - field))
  else ((fractionCount + fraction) * Nat.pow 2 (field - (leastExponent + 1)), 1)

/-- Digits as a natural number, in units of a power of ten. -/
structure Digits where
  /-- All the digits, without a zero at the end unless there is no other digit. -/
  coefficient : Nat
  /-- The power of ten that the last digit counts. -/
  exponent : Int
  deriving DecidableEq, Repr

/-- How many decimal digits a natural number has; zero has one. -/
def digitCount (n : Nat) : Nat := (Nat.toDigits 10 n).length

/-- The least number of places, from `places` on, that the decimal point of `num / den` has to move
to the right for the whole part not to be zero. At most `fuel` places are tried. -/
def leadingPlaces (num den : Nat) : Nat → Nat → Nat
  | 0, places => places
  | fuel + 1, places =>
    if den ≤ num then places else leadingPlaces (num * 10) den fuel (places + 1)

/-- The place `p` with `10 ^ (p - 1) ≤ num / den < 10 ^ p`, for a positive value. -/
def pointPlace (num den : Nat) : Int :=
  if den ≤ num then digitCount (num / den)
  else 1 - (leadingPlaces num den 400 0 : Int)

/-- The value `num / den` in units of `10 ^ exponent`, as numerator and denominator. -/
def inUnits (num den : Nat) (exponent : Int) : Nat × Nat :=
  match exponent with
  | .ofNat e => (num, den * Nat.pow 10 e)
  | .negSucc k => (num * Nat.pow 10 (k + 1), den)

/-- The neighbour of the value on the grid of multiples of `10 ^ exponent` that reads back as the
pattern, if one does: of two the nearer, of two equally near the even one. -/
def onGrid? (pattern num den : Nat) (exponent : Int) : Option Nat :=
  let scaled := inUnits num den exponent
  let below := scaled.1 / scaled.2
  let readsBack (coefficient : Nat) : Bool := nearestDecimal? coefficient exponent = some pattern
  match readsBack below, readsBack (below + 1) with
  | true, true => some (roundDiv scaled.1 scaled.2)
  | true, false => some below
  | false, true => some (below + 1)
  | false, false => none

/-- The same number without zeros at the end of its digits; at most `fuel` are taken off. -/
def dropZeros : Nat → Digits → Digits
  | 0, d => d
  | fuel + 1, d =>
    if d.coefficient % 10 = 0 ∧ d.coefficient ≠ 0 then
      dropZeros fuel ⟨d.coefficient / 10, d.exponent + 1⟩
    else d

/-- All the digits of the value of a pattern: every power of two divides a power of ten. -/
def exactDigits (pattern : Nat) : Digits :=
  let value := ratioOfPattern pattern
  ⟨value.1 * Nat.pow 5 value.2.log2, -(value.2.log2 : Int)⟩

/-- The first grid, from `count` digits on, with a point that reads back; `fuel` grids are tried,
and after the last of them all digits are taken. -/
def firstGrid (pattern num den : Nat) (place : Int) : Nat → Nat → Digits
  | 0, _ => exactDigits pattern
  | fuel + 1, count =>
    let exponent := place - (count : Int)
    match onGrid? pattern num den exponent with
    | some coefficient => ⟨coefficient, exponent⟩
    | none => firstGrid pattern num den place fuel (count + 1)

/-- The fewest digits that read back as the pattern of a finite number without a sign bit. -/
def shortestDigits (pattern : Nat) : Digits :=
  if pattern = 0 then ⟨0, 0⟩
  else
    let value := ratioOfPattern pattern
    dropZeros 400 (firstGrid pattern value.1 value.2 (pointPlace value.1 value.2) 17 1)

end SignHash.Decimal
