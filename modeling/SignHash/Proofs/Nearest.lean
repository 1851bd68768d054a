import Mathlib.Algebra.Order.Ring.Nat
import SignHash.Decimal.Shortest

/-!
# Decimals and the nearest numbers

Rounding looks at nothing but the value of a decimal. The value of a pattern rounds to the pattern, and
so do the digits that are found for it: the fewest that do, or all of them.
-/

namespace SignHash.Decimal

/-! ## Rounding quotients -/

theorem roundDiv_mul_right (num den : Nat) {k : Nat} (hk : 0 < k) :
    roundDiv (num * k) (den * k) = roundDiv num den := by
  have hlt : 2 * (num % den * k) < den * k ↔ 2 * (num % den) < den := by
    rw [← Nat.mul_assoc, Nat.mul_lt_mul_right hk]
  have heq : 2 * (num % den * k) = den * k ↔ 2 * (num % den) = den := by
    rw [← Nat.mul_assoc, Nat.mul_left_inj (Nat.ne_of_gt hk)]
  simp only [roundDiv, Nat.mul_div_mul_right _ _ hk, Nat.mul_mod_mul_right, hlt, heq]

theorem roundDiv_mul_left (whole : Nat) {den : Nat} (hden : 0 < den) :
    roundDiv (whole * den) den = whole := by
  simp [roundDiv, Nat.mul_div_cancel _ hden, hden]

theorem roundDiv_cases (num den : Nat) :
    roundDiv num den = num / den ∨ roundDiv num den = num / den + 1 := by
  simp only [roundDiv]
  split
  · exact .inl rfl
  · exact .inr rfl

theorem nearestPattern?_mul_right (num den : Nat) {k : Nat} (hk : 0 < k) :
    nearestPattern? (num * k) (den * k) = nearestPattern? num den := by
  have hscaled : num * k * Nat.pow 2 leastExponent = num * Nat.pow 2 leastExponent * k :=
    Nat.mul_right_comm num k _
  have hden : ∀ shift, den * k * Nat.pow 2 shift = den * Nat.pow 2 shift * k :=
    fun shift => Nat.mul_right_comm den k _
  simp only [nearestPattern?, hscaled, hden, Nat.mul_div_mul_right _ _ hk, roundDiv_mul_right _ _ hk]

/-- Quotients of the same value have the same nearest pattern. -/
theorem nearestPattern?_congr {num den num' den' : Nat} (hden : 0 < den) (hden' : 0 < den')
    (h : num * den' = num' * den) : nearestPattern? num den = nearestPattern? num' den' := by
  rw [← nearestPattern?_mul_right num den hden', h, Nat.mul_comm den den',
    nearestPattern?_mul_right num' den' hden]

/-! ## Rounding decimals -/

/-- The decimals that are settled without a power of ten round as their values do. -/
theorem nearestPattern?_of_large {coefficient exponent : Nat} (hpos : coefficient ≠ 0)
    (large : 400 < exponent) : nearestPattern? (coefficient * 10 ^ exponent) 1 = none := by
  obtain ⟨scaled, hscaled⟩ : ∃ n, n = coefficient * 10 ^ exponent * 2 ^ leastExponent := ⟨_, rfl⟩
  have hleast : leastExponent = 1074 := rfl
  have hpow : 2 ^ (3 * exponent + leastExponent) ≤ scaled := by
    calc 2 ^ (3 * exponent + leastExponent) = (2 ^ 3) ^ exponent * 2 ^ leastExponent := by
          rw [Nat.pow_add, Nat.pow_mul]
      _ ≤ 10 ^ exponent * 2 ^ leastExponent :=
          Nat.mul_le_mul_right _ (Nat.pow_le_pow_left (by decide) exponent)
      _ ≤ scaled := by
          rw [hscaled]
          refine Nat.mul_le_mul_right _ ?_
          exact Nat.le_mul_of_pos_left _ (Nat.pos_of_ne_zero hpos)
  have hlog : 3 * exponent + leastExponent ≤ scaled.log2 := by
    refine (Nat.le_log2 ?_).mpr hpow
    exact Nat.ne_of_gt (Nat.lt_of_lt_of_le (Nat.pow_pos (by decide)) hpow)
  have hpattern : ¬(scaled.log2 - 52) * fractionCount + roundDiv scaled (2 ^ (scaled.log2 - 52)) <
      infinityPattern := by
    have hfraction : fractionCount = 2 ^ 52 := rfl
    have hinfinity : infinityPattern = 2047 * 2 ^ 52 := rfl
    have hshift : 2047 * fractionCount ≤ (scaled.log2 - 52) * fractionCount :=
      Nat.mul_le_mul_right _ (by omega)
    omega
  simp only [nearestPattern?, Nat.pow_eq, Nat.div_one, Nat.one_mul, ← hscaled, if_neg hpattern]

theorem nearestPattern?_of_small {coefficient places : Nat}
    (small : coefficient.log2 + 1100 ≤ places) :
    nearestPattern? coefficient (10 ^ (places + 1)) = some 0 := by
  have hleast : leastExponent = 1074 := rfl
  have hbound : 2 * (coefficient * 2 ^ leastExponent) < 10 ^ (places + 1) := by
    calc 2 * (coefficient * 2 ^ leastExponent)
        < 2 * (2 ^ (coefficient.log2 + 1) * 2 ^ leastExponent) := by
          refine Nat.mul_lt_mul_of_pos_left ?_ (by decide)
          exact Nat.mul_lt_mul_of_pos_right Nat.lt_log2_self (Nat.pow_pos (by decide))
      _ = 2 ^ (coefficient.log2 + 1 + leastExponent + 1) := by rw [← Nat.pow_add, ← Nat.pow_succ']
      _ ≤ 2 ^ (places + 1) := Nat.pow_le_pow_right (by decide) (by omega)
      _ ≤ 10 ^ (places + 1) := Nat.pow_le_pow_left (by decide) _
  have hdiv : coefficient * 2 ^ leastExponent / 10 ^ (places + 1) = 0 :=
    Nat.div_eq_of_lt (by omega)
  have hmod : coefficient * 2 ^ leastExponent % 10 ^ (places + 1) = coefficient * 2 ^ leastExponent :=
    Nat.mod_eq_of_lt (by omega)
  have hlog : Nat.log2 0 = 0 := by decide
  simp only [nearestPattern?, roundDiv, Nat.pow_eq, hdiv, hmod, hlog, Nat.pow_zero, Nat.mul_one,
    Nat.zero_sub, Nat.zero_mul, if_pos (Or.inl hbound)]
  rfl

/-- A decimal rounds as the quotient that has its value. -/
theorem nearestDecimal?_eq (coefficient : Nat) (exponent : Int) :
    nearestDecimal? coefficient exponent =
      nearestPattern? (coefficient * 10 ^ exponent.toNat) (10 ^ (-exponent).toNat) := by
  unfold nearestDecimal?
  by_cases hzero : coefficient = 0
  · subst hzero
    have hlog : Nat.log2 0 = 0 := by decide
    simp [nearestPattern?, roundDiv, hlog, infinityPattern]
  · rw [if_neg hzero]
    cases exponent with
    | ofNat e =>
      have hexponent : (-Int.ofNat e).toNat = 0 := by simp
      rw [hexponent]
      by_cases hlarge : 400 < e
      · simp only [if_pos hlarge]
        exact (nearestPattern?_of_large hzero hlarge).symm
      · simp only [if_neg hlarge]
        rfl
    | negSucc k =>
      have hexponent : (-Int.negSucc k).toNat = k + 1 := rfl
      have hnone : (Int.negSucc k).toNat = 0 := rfl
      rw [hexponent, hnone, Nat.pow_zero, Nat.mul_one]
      by_cases hsmall : coefficient.log2 + 1100 ≤ k
      · simp only [if_pos hsmall]
        exact (nearestPattern?_of_small hsmall).symm
      · simp only [if_neg hsmall]
        rfl

/-- Zeros at the end of a coefficient count as much as they do in the exponent. -/
theorem nearestDecimal?_mul_pow (coefficient zeros : Nat) (exponent : Int) :
    nearestDecimal? (coefficient * 10 ^ zeros) exponent =
      nearestDecimal? coefficient (exponent + zeros) := by
  rw [nearestDecimal?_eq, nearestDecimal?_eq]
  refine nearestPattern?_congr (Nat.pow_pos (by decide)) (Nat.pow_pos (by decide)) ?_
  rw [Nat.mul_assoc, Nat.mul_assoc, Nat.mul_assoc, ← Nat.pow_add, ← Nat.pow_add, ← Nat.pow_add]
  congr 2
  omega

/-! ## The values of patterns -/

/-- A value of fifty-three bits above a power of two is the value of its pattern. -/
theorem nearestPattern?_of_whole {num den significand shift : Nat} (hden : 0 < den)
    (value : num * 2 ^ leastExponent = significand * 2 ^ shift * den)
    (hlow : 2 ^ 52 ≤ significand) (hhigh : significand < 2 ^ 53)
    (finite : shift * fractionCount + significand < infinityPattern) :
    nearestPattern? num den = some (shift * fractionCount + significand) := by
  have hdiv : num * 2 ^ leastExponent / den = significand * 2 ^ shift := by
    rw [value, Nat.mul_div_cancel _ hden]
  have hlog : (significand * 2 ^ shift).log2 - 52 = shift := by
    have hpow : 0 < 2 ^ shift := Nat.pow_pos (by decide)
    have hne : significand * 2 ^ shift ≠ 0 := Nat.ne_of_gt (Nat.mul_pos (by omega) hpow)
    have hle : 52 + shift ≤ (significand * 2 ^ shift).log2 := by
      rw [Nat.le_log2 hne, Nat.pow_add]
      exact Nat.mul_le_mul_right _ hlow
    have hlt : (significand * 2 ^ shift).log2 < 53 + shift := by
      rw [Nat.log2_lt hne, Nat.pow_add]
      exact Nat.mul_lt_mul_of_pos_right hhigh hpow
    omega
  have hround : roundDiv (num * 2 ^ leastExponent) (den * 2 ^ shift) = significand := by
    rw [value, Nat.mul_assoc, Nat.mul_comm (2 ^ shift) den,
      roundDiv_mul_left _ (Nat.mul_pos hden (Nat.pow_pos (by decide)))]
  simp only [nearestPattern?, Nat.pow_eq, hdiv, hlog, hround, if_pos finite]

theorem nearestPattern?_of_fraction {fraction : Nat} (h : fraction < 2 ^ 52) :
    nearestPattern? fraction (2 ^ leastExponent) = some fraction := by
  have hlog : fraction.log2 - 52 = 0 := by
    by_cases hzero : fraction = 0
    · subst hzero
      decide
    · have hlt := (Nat.log2_lt hzero).mpr h
      omega
  have hfinite : fraction < infinityPattern := by
    have hinfinity : infinityPattern = 2047 * 2 ^ 52 := rfl
    omega
  have hpow : 0 < 2 ^ leastExponent := Nat.pow_pos (by decide)
  simp only [nearestPattern?, Nat.pow_eq, Nat.mul_div_cancel _ hpow, hlog, Nat.pow_zero, Nat.mul_one,
    Nat.zero_mul, Nat.zero_add, roundDiv_mul_left _ hpow, if_pos hfinite]

/-- The value of a finite pattern is nearest to the pattern, and its denominator is a power of two. -/
theorem nearestPattern?_ratioOfPattern {pattern : Nat} (finite : pattern < infinityPattern) :
    ∃ places, (ratioOfPattern pattern).2 = 2 ^ places ∧
      nearestPattern? (ratioOfPattern pattern).1 (2 ^ places) = some pattern := by
  have hcount : fractionCount = 2 ^ 52 := rfl
  have hleast : leastExponent = 1074 := rfl
  have hsplit : pattern / fractionCount * fractionCount + pattern % fractionCount = pattern :=
    Nat.div_add_mod' pattern fractionCount
  have hfraction : pattern % fractionCount < fractionCount := Nat.mod_lt _ (by decide)
  simp only [ratioOfPattern, Nat.pow_eq]
  generalize pattern / fractionCount = field at hsplit ⊢
  generalize pattern % fractionCount = fraction at hsplit hfraction ⊢
  by_cases hsmall : field = 0
  · subst hsmall
    rw [if_pos rfl]
    obtain rfl : fraction = pattern := by omega
    exact ⟨leastExponent, by dsimp only, nearestPattern?_of_fraction hfraction⟩
  · obtain ⟨shift, rfl⟩ : ∃ shift, field = shift + 1 := ⟨field - 1, by omega⟩
    have hpattern : shift * fractionCount + (fractionCount + fraction) = pattern := by
      rw [← hsplit, Nat.add_mul, Nat.one_mul, Nat.add_assoc]
    rw [if_neg hsmall]
    by_cases hmiddle : shift + 1 ≤ leastExponent + 1
    · rw [if_pos hmiddle]
      refine ⟨leastExponent + 1 - (shift + 1), by dsimp only, ?_⟩
      have hvalue : (fractionCount + fraction) * 2 ^ leastExponent =
          (fractionCount + fraction) * 2 ^ shift * 2 ^ (leastExponent + 1 - (shift + 1)) := by
        have hexponent : shift + (leastExponent + 1 - (shift + 1)) = leastExponent := by omega
        rw [Nat.mul_assoc, ← Nat.pow_add, hexponent]
      rw [nearestPattern?_of_whole (Nat.pow_pos (by decide)) hvalue (by omega) (by omega) (by omega),
        hpattern]
    · rw [if_neg hmiddle]
      refine ⟨0, rfl, ?_⟩
      have hvalue : (fractionCount + fraction) * 2 ^ (shift + 1 - (leastExponent + 1)) *
          2 ^ leastExponent = (fractionCount + fraction) * 2 ^ shift * 2 ^ 0 := by
        have hexponent : shift + 1 - (leastExponent + 1) + leastExponent = shift := by omega
        rw [Nat.mul_assoc, ← Nat.pow_add, hexponent, Nat.pow_zero, Nat.mul_one]
      rw [nearestPattern?_of_whole (by decide) hvalue (by omega) (by omega) (by omega), hpattern]

/-! ## Digits that read back -/

/-- Digits read back as a pattern: it is the nearest to their value. -/
def Digits.ReadsBack (d : Digits) (pattern : Nat) : Prop :=
  nearestDecimal? d.coefficient d.exponent = some pattern

theorem nearestDecimal?_of_onGrid? {pattern num den coefficient : Nat} {exponent : Int}
    (h : onGrid? pattern num den exponent = some coefficient) :
    nearestDecimal? coefficient exponent = some pattern := by
  rw [onGrid?] at h
  split at h
  · next hbelow habove =>
    obtain rfl := Option.some.inj h
    rcases roundDiv_cases (inUnits num den exponent).1 (inUnits num den exponent).2 with hround | hround
    · rw [hround]
      exact of_decide_eq_true hbelow
    · rw [hround]
      exact of_decide_eq_true habove
  · next hbelow _ =>
    obtain rfl := Option.some.inj h
    exact of_decide_eq_true hbelow
  · next _ habove =>
    obtain rfl := Option.some.inj h
    exact of_decide_eq_true habove
  · cases h

/-- All the digits of a number read back: with as many fives as its denominator has twos, the
denominator is a power of ten. -/
theorem exactDigits_readsBack {pattern : Nat} (finite : pattern < infinityPattern) :
    (exactDigits pattern).ReadsBack pattern := by
  obtain ⟨places, hden, hpattern⟩ := nearestPattern?_ratioOfPattern finite
  have hlog : (2 ^ places).log2 = places := Nat.log2_two_pow
  have hten : (2 : Nat) ^ places * 5 ^ places = 10 ^ places := by rw [← Nat.mul_pow]
  rw [Digits.ReadsBack, exactDigits]
  simp only [hden, hlog, Nat.pow_eq]
  rw [nearestDecimal?_eq]
  have hwhole : (-(places : Int)).toNat = 0 := by omega
  have hpoint : (- -(places : Int)).toNat = places := by omega
  rw [hwhole, hpoint, Nat.pow_zero, Nat.mul_one, ← hten,
    nearestPattern?_mul_right _ _ (Nat.pow_pos (by decide)), hpattern]

theorem firstGrid_readsBack {pattern num den : Nat} (finite : pattern < infinityPattern) (place : Int)
    (fuel count : Nat) : (firstGrid pattern num den place fuel count).ReadsBack pattern := by
  induction fuel generalizing count with
  | zero => exact exactDigits_readsBack finite
  | succ fuel ih =>
    rw [firstGrid]
    split
    · next coefficient hgrid => exact nearestDecimal?_of_onGrid? hgrid
    · exact ih (count + 1)

theorem dropZeros_readsBack {d : Digits} {pattern : Nat} (h : d.ReadsBack pattern) (fuel : Nat) :
    (dropZeros fuel d).ReadsBack pattern := by
  induction fuel generalizing d with
  | zero => exact h
  | succ fuel ih =>
    rw [dropZeros]
    split
    · next hzero =>
      refine ih ?_
      have htens : d.coefficient / 10 * 10 ^ 1 = d.coefficient := by omega
      have hvalue := nearestDecimal?_mul_pow (d.coefficient / 10) 1 d.exponent
      rw [htens] at hvalue
      exact hvalue.symm.trans h
    · exact h

/-- The fewest digits of a finite number read back as it. -/
theorem shortestDigits_readsBack {pattern : Nat} (finite : pattern < infinityPattern) :
    (shortestDigits pattern).ReadsBack pattern := by
  rw [shortestDigits]
  by_cases hzero : pattern = 0
  · subst hzero
    rfl
  · rw [if_neg hzero]
    exact dropZeros_readsBack (firstGrid_readsBack finite _ _ _) _

/-- The digits of a number are zero only if the number is. -/
theorem coefficient_ne_zero {d : Digits} {pattern : Nat} (h : d.ReadsBack pattern)
    (hpattern : pattern ≠ 0) : d.coefficient ≠ 0 := by
  intro hzero
  rw [Digits.ReadsBack, hzero] at h
  exact hpattern (Option.some.inj h).symm

end SignHash.Decimal
