import SignHash.Proofs.Magnitude

/-!
# Rounding of binary64 numbers

Products, quotients and sums of finite numbers are their exact values, rounded: to a multiple of the
unit of the value, the nearest one, of two the even one. So they depend on the values alone, not on how
these are written. The unit is the least power of two that leaves at most 53 bits, unless that falls
below the least exponent.
-/

namespace SignHash.Double

open Float.Model (UnpackedFloat Format totalExponent)
open Float.Model.UnpackedFloat

/-! ## Fractions as mantissas -/

/-- A fraction as a mantissa with the bits behind it. -/
def ofFraction (a d : Nat) : ExtendedMantissa := ⟨a / d, 2 * a / d % 2 != 0, 2 * a % d != 0⟩

/-- Half of a fraction is one place further right, and nothing of what is lost is forgotten. -/
theorem shiftRightOne_ofFraction (a : Nat) {d : Nat} (hd : 0 < d) :
    (ofFraction a d).shiftRightOne = ofFraction a (d * 2) := by
  have hround : 2 * a / (d * 2) = a / d := by
    rw [Nat.mul_comm 2 a, Nat.mul_div_mul_right _ _ (by decide)]
  have hsticky : (2 * a / d % 2 != 0 || 2 * a % d != 0) = (2 * a % (d * 2) != 0) := by
    rw [Nat.mod_mul, Bool.eq_iff_iff, Bool.or_eq_true, bne_iff_ne, bne_iff_ne, bne_iff_ne]
    rcases Nat.mod_two_eq_zero_or_one (2 * a / d) with h | h <;> rw [h] <;> omega
  rw [ofFraction, ofFraction, ExtendedMantissa.shiftRightOne, hround, ← hsticky,
    Nat.div_div_eq_div_mul]

theorem shiftRight_ofFraction (a : Nat) {d : Nat} (hd : 0 < d) (n : Nat) :
    ofFraction a d >>> n = ofFraction a (d * 2 ^ n) := by
  induction n with
  | zero =>
    rw [Nat.pow_zero, Nat.mul_one]
    rfl
  | succ n ih =>
    have hstep : ofFraction a d >>> (n + 1) = (ofFraction a d >>> n).shiftRightOne := rfl
    rw [hstep, ih, shiftRightOne_ofFraction a (Nat.mul_pos hd (Nat.two_pow_pos n)), Nat.mul_assoc,
      ← Nat.pow_succ]

/-- A quotient with a note of its rest is the fraction itself, as far as rounding goes. -/
theorem ofMantissaAndAccuracy_fraction (a : Nat) {d : Nat} (hd : 0 < d) :
    ExtendedMantissa.ofMantissaAndAccuracy (a / d) (accuracyOfFraction (a % d) d) =
      ofFraction a d := by
  have hrest := Nat.mod_lt a hd
  have htwice : 2 * a = d * (2 * (a / d)) + 2 * (a % d) := by
    conv => lhs; rw [← Nat.div_add_mod a d]
    ring
  have hdouble : ∀ q r, 2 * a = d * q + r → r < d → 2 * a / d = q ∧ 2 * a % d = r := by
    intro q r h hr
    exact (Nat.div_mod_unique hd).mpr ⟨by omega, hr⟩
  rw [accuracyOfFraction, ofFraction]
  by_cases hzero : a % d = 0
  · obtain ⟨hq, hr⟩ := hdouble (2 * (a / d)) 0 (by omega) hd
    rw [if_pos hzero, hq, hr, Nat.mul_mod_right]
    rfl
  · rw [if_neg hzero]
    rcases lt_trichotomy (2 * (a % d)) d with h | h | h
    · obtain ⟨hq, hr⟩ := hdouble (2 * (a / d)) (2 * (a % d)) htwice h
      have hne : 2 * (a % d) ≠ 0 := by omega
      rw [Nat.compare_eq_lt.mpr h, hq, hr, Nat.mul_mod_right, bne_iff_ne.mpr hne]
      rfl
    · obtain ⟨hq, hr⟩ := hdouble (2 * (a / d) + 1) 0 (by rw [Nat.mul_add]; omega) hd
      rw [Nat.compare_eq_eq.mpr h, hq, hr, Nat.mul_add_mod]
      rfl
    · obtain ⟨hq, hr⟩ := hdouble (2 * (a / d) + 1) (2 * (a % d) - d) (by rw [Nat.mul_add]; omega)
        (by omega)
      have hne : 2 * (a % d) - d ≠ 0 := by omega
      rw [Nat.compare_eq_gt.mpr h, hq, hr, Nat.mul_add_mod, bne_iff_ne.mpr hne]
      rfl

/-- Only the value of a fraction matters. -/
theorem ofFraction_mul (a d : Nat) {c : Nat} (hc : 0 < c) :
    ofFraction (a * c) (d * c) = ofFraction a d := by
  have hsticky : (2 * a * c % (d * c) != 0) = (2 * a % d != 0) := by
    rw [Nat.mul_mod_mul_right, Bool.eq_iff_iff, bne_iff_ne, bne_iff_ne, Ne, Nat.mul_eq_zero]
    omega
  rw [ofFraction, ofFraction, ← Nat.mul_assoc, hsticky, Nat.mul_div_mul_right _ _ hc,
    Nat.mul_div_mul_right _ _ hc]

/-! ## The nearest number of units -/

/-- The natural number nearest to a rational number that is not negative, of two the even one. -/
def nearest (q : ℚ) : ℕ := (ofFraction q.num.toNat q.den).roundedMantissa

/-- Any way of writing a fraction is rounded alike. -/
theorem nearest_div (a : Nat) {d : Nat} (hd : 0 < d) :
    nearest ((a : ℚ) / d) = (ofFraction a d).roundedMantissa := by
  have hcross : ((a : ℚ) / d).num.toNat * d = a * ((a : ℚ) / d).den := by
    have hvalue : (a : ℚ) / d = ((a : ℚ) / d).num / ((a : ℚ) / d).den := (Rat.num_div_den _).symm
    rw [div_eq_div_iff (by positivity) (by positivity)] at hvalue
    have hnum : (((a : ℚ) / d).num.toNat : ℤ) = ((a : ℚ) / d).num :=
      Int.toNat_of_nonneg (Rat.num_nonneg.mpr (by positivity))
    have hint : (a : ℤ) * ((a : ℚ) / d).den = ((a : ℚ) / d).num * d := by exact_mod_cast hvalue
    rw [← hnum] at hint
    exact_mod_cast hint.symm
  have hden : 0 < ((a : ℚ) / d).den := Rat.den_pos _
  rw [nearest, ← ofFraction_mul _ ((a : ℚ) / d).den hd, hcross, Nat.mul_comm _ d,
    ofFraction_mul _ _ hden]

/-- Rounding goes at most one up. -/
theorem roundedMantissa_bounds (em : ExtendedMantissa) :
    em.mantissa ≤ em.roundedMantissa ∧ em.roundedMantissa ≤ em.mantissa + 1 := by
  obtain ⟨m, r, s⟩ := em
  cases r <;> cases s <;>
    simp only [ExtendedMantissa.roundedMantissa, ExtendedMantissa.accuracy,
      Accuracy.roundToNearestEven] <;> omega

/-- Rounding passes no natural number on the way down. -/
theorem le_nearest {q : ℚ} {n : ℕ} (h : (n : ℚ) ≤ q) : n ≤ nearest q := by
  refine le_trans ?_ (roundedMantissa_bounds _).1
  rw [ofFraction, Nat.le_div_iff_mul_le (Rat.den_pos q)]
  have hden : (0 : ℚ) < q.den := by exact_mod_cast Rat.den_pos q
  rw [← Rat.num_div_den q, le_div_iff₀ hden] at h
  have hint : (n : ℤ) * q.den ≤ q.num := by exact_mod_cast h
  omega

/-- Nor does it on the way up. -/
theorem nearest_le {q : ℚ} (hq : 0 ≤ q) {n : ℕ} (h : q < n) : nearest q ≤ n := by
  refine le_trans (roundedMantissa_bounds _).2 ?_
  rw [ofFraction, Nat.succ_le_iff, Nat.div_lt_iff_lt_mul (Rat.den_pos q)]
  have hden : (0 : ℚ) < q.den := by exact_mod_cast Rat.den_pos q
  have hnum := Rat.num_nonneg.mpr hq
  rw [← Rat.num_div_den q, div_lt_iff₀ hden] at h
  have hint : q.num < (n : ℤ) * q.den := by exact_mod_cast h
  omega

/-! ## Units -/

/-- The unit to which a positive number is rounded, as a power of two. -/
def unit (v : ℚ) : ℤ := max (Int.log 2 v - 52) (-1074)

/-- A number of units, rounded, as a number; 2 ^ 53 units are taken for half as many of twice the
size. -/
def settled (s : Sign) (r : Nat) (t : Int) : UnpackedFloat :=
  if h : r = 0 then .zero s
  else if r < 2 ^ 53 then .finite s r t (Nat.pos_of_ne_zero h)
  else .finite s (2 ^ 52) (t + 1) (by decide)

/-- The number nearest to a positive one. -/
def roundedTo (s : Sign) (v : ℚ) : UnpackedFloat := settled s (nearest (v / 2 ^ unit v)) (unit v)

/-- A result keeps 53 bits, or fewer if it is below the least normal number. -/
theorem targetExponent_eq (m : Nat) (e : Int) :
    Format.binary64.targetExponent (totalExponent m e) = max (m.log2 + e - 52) (-1074) := by
  have hbits : (Format.binary64.mantissaBits : Int) = 53 := by decide
  have hleast : Format.binary64.minExponent = -1074 := by decide
  rw [Format.targetExponent, totalExponent, hbits, hleast]
  omega

theorem shiftToTargetExponent_eq (m : Nat) (e : Int) (a : Accuracy) :
    shiftToTargetExponent Format.binary64 m e a =
      (ExtendedMantissa.ofMantissaAndAccuracy m a >>>
          (max ((m.log2 : Int) + e - 52) (-1074) - e).toNat,
        e + (max ((m.log2 : Int) + e - 52) (-1074) - e).toNat) := by
  rw [shiftToTargetExponent, targetExponent_eq]
  rfl

/-- A mantissa of at most 53 bits stays where it is. -/
theorem shiftToTargetExponent_of_lt {r : Nat} {t : Int} (hr : r < 2 ^ 53) (ht : -1074 ≤ t) :
    shiftToTargetExponent Format.binary64 r t .exact = (⟨r, false, false⟩, t) := by
  have hlog : r.log2 ≤ 52 := by
    by_cases hzero : r = 0
    · simp [hzero]
    · exact Nat.lt_succ_iff.mp ((Nat.log2_lt hzero).mpr hr)
  have hshift : (max ((r.log2 : Int) + t - 52) (-1074) - t).toNat = 0 := by omega
  rw [shiftToTargetExponent_eq, hshift]
  simp only [Nat.cast_zero, Int.add_zero]
  rfl

/-- What is rounded up to 2 ^ 53 units goes on with twice the unit. -/
theorem shiftToTargetExponent_two_pow {t : Int} (ht : -1074 ≤ t) :
    shiftToTargetExponent Format.binary64 (2 ^ 53) t .exact = (⟨2 ^ 52, false, false⟩, t + 1) := by
  have hshift : (max (((2 ^ 53).log2 : Int) + t - 52) (-1074) - t).toNat = 1 := by
    rw [Nat.log2_two_pow]
    omega
  rw [shiftToTargetExponent_eq, hshift]
  rfl

/-- What is left after a shift to the unit is rounded to units. -/
theorem roundWithAccuracy_eq_settled {s : Sign} {m : Nat} {e : Int} {a : Accuracy} {t : Int}
    {em : ExtendedMantissa} (he : e ≤ t) (ht : max ((m.log2 : Int) + e - 52) (-1074) = t)
    (hem : ExtendedMantissa.ofMantissaAndAccuracy m a >>> (t - e).toNat = em)
    (hr : em.roundedMantissa ≤ 2 ^ 53) :
    roundWithAccuracy Format.binary64 s m e a = settled s em.roundedMantissa t := by
  have hfirst : shiftToTargetExponent Format.binary64 m e a = (em, t) := by
    rw [shiftToTargetExponent_eq, ht, hem, Int.toNat_of_nonneg (by omega)]
    simp
  have hleast : -1074 ≤ t := by omega
  rw [roundWithAccuracy, hfirst]
  simp only
  generalize em.roundedMantissa = r at *
  rcases Nat.lt_or_eq_of_le hr with hlt | rfl
  · rw [shiftToTargetExponent_of_lt hlt hleast, settled]
    simp only [if_pos hlt]
  · rw [shiftToTargetExponent_two_pow hleast]
    rfl

/-! ## Rounding by value -/

theorem log_eq {v : ℚ} {n : ℤ} (hlow : 2 ^ n ≤ v) (hhigh : v < 2 ^ (n + 1)) : Int.log 2 v = n := by
  have hpos : 0 < v := lt_of_lt_of_le (by positivity) hlow
  have hle := (Int.zpow_le_iff_le_log (b := 2) (by decide) hpos).mp (by exact_mod_cast hlow)
  have hlt := (Int.lt_zpow_iff_log_lt (b := 2) (by decide) hpos).mp (by exact_mod_cast hhigh)
  omega

theorem le_log {v : ℚ} {n : ℤ} (h : 2 ^ n ≤ v) : n ≤ Int.log 2 v :=
  (Int.zpow_le_iff_le_log (b := 2) (by decide) (lt_of_lt_of_le (by positivity) h)).mp
    (by exact_mod_cast h)

theorem zpow_log_le {v : ℚ} (hv : 0 < v) : (2 : ℚ) ^ Int.log 2 v ≤ v := by
  exact_mod_cast Int.zpow_log_le_self (b := 2) (by decide) hv

theorem lt_zpow_log {v : ℚ} : v < 2 ^ (Int.log 2 v + 1) := by
  exact_mod_cast Int.lt_zpow_succ_log_self (b := 2) (by decide) v

theorem div_unit_lt {v : ℚ} : v / 2 ^ unit v < 2 ^ 53 := by
  have hpow : (0 : ℚ) < 2 ^ unit v := by positivity
  rw [div_lt_iff₀ hpow, ← zpow_natCast, ← zpow_add₀ (by decide)]
  refine lt_of_lt_of_le lt_zpow_log (zpow_le_zpow_right₀ (by decide) ?_)
  rw [unit]
  push_cast
  omega

/-- Rounded to its unit, a number takes 53 bits, or is the next power of two. -/
theorem nearest_unit_le {v : ℚ} (hv : 0 < v) : nearest (v / 2 ^ unit v) ≤ 2 ^ 53 :=
  nearest_le (by positivity) (by exact_mod_cast div_unit_lt)

/-- The first bit of a fraction that is at least one is that of its floor. -/
theorem log_fraction {a d : Nat} (hd : 0 < d) (h : 0 < a / d) (e : ℤ) :
    Int.log 2 ((a : ℚ) / d * 2 ^ e) = (a / d).log2 + e := by
  have hpow : (0 : ℚ) < 2 ^ e := by positivity
  refine log_eq ?_ ?_
  · rw [zpow_add₀ (by decide), zpow_natCast]
    refine mul_le_mul_of_nonneg_right (le_trans ?_ Nat.cast_div_le) hpow.le
    exact_mod_cast Nat.log2_self_le (Nat.ne_of_gt h)
  · rw [add_right_comm, zpow_add₀ (by decide), ← Nat.cast_succ, zpow_natCast]
    refine mul_lt_mul_of_pos_right ?_ hpow
    rw [div_lt_iff₀ (by positivity)]
    have hlt : a < (a / d + 1) * d := by
      rw [Nat.mul_comm]
      exact Nat.lt_mul_div_succ a hd
    have hfloor : a / d + 1 ≤ 2 ^ ((a / d).log2 + 1) := Nat.lt_log2_self
    exact_mod_cast lt_of_lt_of_le hlt (Nat.mul_le_mul_right d hfloor)

/-- The floor of a fraction, with what is known of the rest, is rounded as the fraction. -/
theorem roundWithAccuracy_fraction {s : Sign} {a d : Nat} {e : Int} {v : ℚ} (ha : 0 < a)
    (hd : 0 < d) (hv : v = a / d * 2 ^ e) (he : e ≤ unit v) :
    roundWithAccuracy Format.binary64 s (a / d) e (accuracyOfFraction (a % d) d) =
      roundedTo s v := by
  have hpos : 0 < v := by
    rw [hv]
    positivity
  have hpow : (0 : ℚ) < 2 ^ e := by positivity
  -- a quotient of zero has the logarithm zero too, and then the unit is the least one
  have hunit : max (((a / d).log2 : Int) + e - 52) (-1074) = unit v := by
    rcases Nat.eq_zero_or_pos (a / d) with hzero | hquotient
    · have hlt : v < 2 ^ e := by
        have had : (a : ℚ) / d < 1 := by
          rw [div_lt_one (by positivity)]
          exact_mod_cast (Nat.div_eq_zero_iff_lt hd).mp hzero
        rw [hv]
        exact mul_lt_of_lt_one_left hpow had
      have hlog : Int.log 2 v < e :=
        (Int.lt_zpow_iff_log_lt (b := 2) (by decide) hpos).mp (by exact_mod_cast hlt)
      rw [unit] at he ⊢
      rw [hzero, Nat.log2_zero]
      omega
    · rw [unit, hv, log_fraction hd hquotient]
  have hfraction : v / 2 ^ unit v = (a : ℚ) / (d * 2 ^ (unit v - e).toNat : Nat) := by
    have hsplit : unit v = e + (unit v - e).toNat := by omega
    have hscale : (2 : ℚ) ^ unit v = 2 ^ e * 2 ^ (unit v - e).toNat := by
      conv => lhs; rw [hsplit]
      rw [zpow_add₀ (by decide), zpow_natCast]
    rw [hscale, hv]
    push_cast
    field_simp
  have hr := nearest_unit_le hpos
  rw [roundedTo, hfraction, nearest_div a (Nat.mul_pos hd (Nat.two_pow_pos _))] at *
  exact roundWithAccuracy_eq_settled he hunit
    (by rw [ofMantissaAndAccuracy_fraction a hd, shiftRight_ofFraction a hd]) hr

/-! ## Operations -/

/-- The value of a finite number but for its sign; zero for other numbers. -/
def size : UnpackedFloat → ℚ
  | .finite _ m e _ => m * 2 ^ e
  | _ => 0

theorem size_finite_pos {s : Sign} {m : Nat} {e : Int} {hm : 0 < m} :
    0 < size (.finite s m e hm) := by
  rw [size]
  positivity

theorem le_unit_of_le {v : ℚ} {n : ℤ} (h : 2 ^ (n + 52) ≤ v) : n ≤ unit v := by
  have hlog := le_log h
  rw [unit]
  omega

/-- No unit is below the least number. -/
theorem unit_ge (v : ℚ) : -1074 ≤ unit v := le_max_right _ _

/-- A product whose mantissa has all its bits, or that is tiny, is the exact one, rounded. -/
theorem mul_eq_roundedTo_of_le {s s' : Sign} {m m' : Nat} {e e' : Int} {hm : 0 < m} {hm' : 0 < m'}
    (place : 2 ^ 52 ≤ m * m' ∨ e + e' ≤ -1074) :
    UnpackedFloat.mul Format.binary64 (.finite s m e hm) (.finite s' m' e' hm') =
      roundedTo (s * s') (size (.finite s m e hm) * size (.finite s' m' e' hm')) := by
  have hvalue : size (.finite s m e hm) * size (.finite s' m' e' hm') =
      ((m * m' : Nat) : ℚ) / (1 : Nat) * 2 ^ (e + e') := by
    rw [size, size, zpow_add₀ (by decide)]
    push_cast
    ring
  have hplace : e + e' ≤ unit (size (.finite s m e hm) * size (.finite s' m' e' hm')) := by
    rcases place with hfull | htiny
    · have hcast : (2 : ℚ) ^ 52 ≤ (m * m' : Nat) := by exact_mod_cast hfull
      refine le_unit_of_le ?_
      rw [hvalue, Nat.cast_one, div_one, add_comm (e + e'), zpow_add₀ (by decide)]
      exact mul_le_mul_of_nonneg_right hcast (by positivity)
    · exact htiny.trans (unit_ge _)
  have hround := roundWithAccuracy_fraction (s := s * s') (Nat.mul_pos hm hm') Nat.one_pos hvalue
    hplace
  rw [Nat.div_one, Nat.mod_one] at hround
  exact hround

/-- A product is the exact one, rounded. -/
theorem mul_eq_roundedTo {s s' : Sign} {m m' : Nat} {e e' : Int} {hm : 0 < m} {hm' : 0 < m'}
    (h : Canonical (.finite s m e hm)) (h' : Canonical (.finite s' m' e' hm')) :
    UnpackedFloat.mul Format.binary64 (.finite s m e hm) (.finite s' m' e' hm') =
      roundedTo (s * s') (size (.finite s m e hm) * size (.finite s' m' e' hm')) := by
  obtain ⟨-, -, -, hfull⟩ := h
  obtain ⟨-, -, -, hfull'⟩ := h'
  refine mul_eq_roundedTo_of_le ?_
  rcases hfull with hfull | rfl
  · exact .inl (hfull.trans (Nat.le_mul_of_pos_right m hm'))
  · rcases hfull' with hfull' | rfl
    · exact .inl (hfull'.trans (Nat.le_mul_of_pos_left m' hm))
    · exact .inr (by decide)

theorem shiftLeft_value (m n : Nat) (e : Int) :
    ((m <<< n : Nat) : ℚ) * 2 ^ (e - n) = m * 2 ^ e := by
  rw [Nat.shiftLeft_eq, zpow_sub₀ (by decide), zpow_natCast]
  push_cast
  field_simp

/-- The quotient of sizes is at least what their first bits say. -/
theorem le_size_div_size (s s' : Sign) {m m' : Nat} (e e' : Int) (hm : 0 < m) (hm' : 0 < m') :
    (2 : ℚ) ^ ((m.log2 + e) - (m'.log2 + 1 + e') : ℤ) ≤
      size (.finite s m e hm) / size (.finite s' m' e' hm') := by
  have hlow : (2 : ℚ) ^ (m.log2 + e : ℤ) ≤ size (.finite s m e hm) := by
    rw [size, zpow_add₀ (by decide), zpow_natCast]
    refine mul_le_mul_of_nonneg_right ?_ (by positivity)
    exact_mod_cast Nat.log2_self_le (Nat.ne_of_gt hm)
  have hhigh : size (.finite s' m' e' hm') ≤ (2 : ℚ) ^ (m'.log2 + 1 + e' : ℤ) := by
    rw [size, ← Nat.cast_succ, zpow_add₀ (by decide), zpow_natCast]
    refine mul_le_mul_of_nonneg_right ?_ (by positivity)
    exact_mod_cast (Nat.lt_log2_self (n := m')).le
  rw [zpow_sub₀ (by decide)]
  exact div_le_div₀ size_finite_pos.le hlow size_finite_pos hhigh

/-- A quotient is the exact one, rounded. -/
theorem div_eq_roundedTo (s s' : Sign) {m m' : Nat} (e e' : Int) (hm : 0 < m) (hm' : 0 < m') :
    UnpackedFloat.div Format.binary64 (.finite s m e hm) (.finite s' m' e' hm') =
      roundedTo (s / s') (size (.finite s m e hm) / size (.finite s' m' e' hm')) := by
  have hbits : (Format.binary64.mantissaBits : Int) = 53 := by decide
  have hleast : Format.binary64.minExponent = -1074 := by decide
  rw [UnpackedFloat.div, divCore]
  simp only [Format.targetExponent, totalExponent, hbits, hleast]
  generalize ht : min (e - e') _ = t
  have hplace : t ≤ unit (size (.finite s m e hm) / size (.finite s' m' e' hm')) := by
    have hleast := unit_ge (size (.finite s m e hm) / size (.finite s' m' e' hm'))
    have hunit := le_log (le_size_div_size s s' e e' hm hm')
    rw [unit] at *
    omega
  refine roundWithAccuracy_fraction ?_ hm' ?_ hplace
  · rw [Nat.shiftLeft_eq]
    exact Nat.mul_pos hm (Nat.two_pow_pos _)
  · generalize hn : (e - e' - t).toNat = n
    have hsplit : t = e - e' - n := by omega
    rw [hsplit, div_mul_eq_mul_div, shiftLeft_value, size, size, zpow_sub₀ (by decide)]
    field_simp

/-- The places of the mantissa and the exponent add up to the logarithm. -/
theorem log_size {s : Sign} {m : Nat} {e : Int} {hm : 0 < m} :
    Int.log 2 (size (.finite s m e hm)) = m.log2 + e := by
  have hlog := log_fraction Nat.one_pos (by rwa [Nat.div_one]) e
  rwa [Nat.div_one, Nat.cast_one, div_one] at hlog

/-- A number that is written with any exponent is rounded as its value. -/
theorem round_eq_roundedTo (s : Sign) {m : Nat} (hm : 0 < m) (e : Int) :
    UnpackedFloat.round Format.binary64 s m e = roundedTo s (m * 2 ^ e) := by
  have hunit : max ((m.log2 : Int) + e - 52) (-1074) = unit (m * 2 ^ e) := by
    rw [unit]
    exact congrArg (fun l : ℤ => max (l - 52) (-1074)) (@log_size s m e hm).symm
  rw [UnpackedFloat.round, targetExponent_eq, hunit, decreaseExponent]
  simp only
  generalize hn : (e - unit (m * 2 ^ e)).toNat = n
  have hvalue : (m : ℚ) * 2 ^ e = ((m <<< n : Nat) : ℚ) / (1 : Nat) * 2 ^ (e - n) := by
    rw [Nat.cast_one, div_one, shiftLeft_value]
  have hpos : 0 < m <<< n := by
    rw [Nat.shiftLeft_eq]
    exact Nat.mul_pos hm (Nat.two_pow_pos _)
  have hround := roundWithAccuracy_fraction (s := s) hpos Nat.one_pos hvalue (by omega)
  rw [Nat.div_one, Nat.mod_one] at hround
  exact hround

/-- A sum of positive numbers is the exact one, rounded. -/
theorem add_eq_roundedTo {m m' : Nat} (e e' : Int) (hm : 0 < m) (hm' : 0 < m') :
    UnpackedFloat.add Format.binary64 (.finite .positive m e hm) (.finite .positive m' e' hm') =
      roundedTo .positive (size (.finite .positive m e hm) + size (.finite .positive m' e' hm')) := by
  rw [UnpackedFloat.add]
  simp only [decreaseExponent, Sign.apply, size]
  generalize hn : (e - min e e').toNat = n
  generalize hn' : (e' - min e e').toNat = n'
  have hpos : 0 < m <<< n + m' <<< n' := by
    rw [Nat.shiftLeft_eq, Nat.shiftLeft_eq]
    positivity
  have hvalue : ((m <<< n + m' <<< n' : Nat) : ℚ) * 2 ^ min e e' = m * 2 ^ e + m' * 2 ^ e' := by
    have hleft := shiftLeft_value m n e
    have hright := shiftLeft_value m' n' e'
    rw [show e - n = min e e' by omega] at hleft
    rw [show e' - n' = min e e' by omega] at hright
    rw [Nat.cast_add, add_mul, hleft, hright]
  rw [← Nat.cast_add, UnpackedFloat.normalize, Int.compare_eq_gt.mpr (Int.natCast_pos.mpr hpos),
    ← hvalue]
  exact round_eq_roundedTo .positive hpos (min e e')

end SignHash.Double
