import SignHash.Proofs.Rounding

/-!
# Scaling by powers of two

A power of two changes the exponent of a number and nothing else, as long as the number is not so small
that bits are lost, and not too large. So it goes through products and sums of normal numbers, and
through roots and quotients of all numbers.
-/

namespace SignHash.Double

open Float.Model (UnpackedFloat Format totalExponent)
open Float.Model.UnpackedFloat

/-! ## Numbers that differ by a power of two -/

/-- The value of a finite number. -/
def value (x : Double) : ℚ := x.sign.apply 1 * size x.opened

/-- Finite numbers of one sign of which the second is 2 ^ k times the first. -/
def Scales (k : ℤ) (x y : Double) : Prop :=
  ∃ s, x.kind = .finite s ∧ y.kind = .finite s ∧ size y.opened = 2 ^ k * size x.opened

theorem div_eq_written (x y : Double) :
    x / y = written (UnpackedFloat.div Format.binary64 x.opened y.opened) := rfl

theorem size_zero {s : Sign} : size (.zero s) = 0 := rfl

/-- Zero is only scaled to zero. -/
theorem Scales.zero_iff {k : ℤ} {x y : Double} (h : Scales k x y) :
    size y.opened = 0 ↔ size x.opened = 0 := by
  obtain ⟨s, -, -, hsize⟩ := h
  rw [hsize, mul_eq_zero, or_iff_right (by positivity)]

theorem opened_eq_zero {x : Double} {s : Sign} (hx : x.kind = .finite s)
    (h : size x.opened = 0) : x.opened = .zero s := by
  rcases opened_of_finite hx with hzero | ⟨m, e, hm, hfinite⟩
  · exact hzero
  · rw [hfinite] at h
    exact absurd h size_finite_pos.ne'

/-- A finite number that has a size is no zero. -/
theorem opened_of_size_pos {x : Double} {s : Sign} (hx : x.kind = .finite s)
    (h : 0 < size x.opened) : ∃ m e hm, x.opened = .finite s m e hm := by
  rcases opened_of_finite hx with hzero | hfinite
  · rw [hzero] at h
    exact absurd h (lt_irrefl _)
  · exact hfinite

theorem zero_lt_of_size_pos {x : Double} (hx : x.kind = .finite .positive)
    (h : 0 < size x.opened) : 0 < x := by
  obtain ⟨m, e, hm, hopen⟩ := opened_of_size_pos hx h
  rw [lt_iff, hopen]
  rfl

/-- A quotient is the same when both numbers are multiplied by a power of two. -/
theorem Scales.div {k : ℤ} {x y n n' : Double} (h : Scales k x y) (hn : Scales k n n')
    (hpos : 0 < size n.opened) : x / n = y / n' := by
  obtain ⟨s, hx, hy, hsize⟩ := h
  obtain ⟨s', hn, hn', hsize'⟩ := hn
  have hpos' : 0 < size n'.opened := by
    rw [hsize']
    positivity
  obtain ⟨a, b, ha, hopen⟩ := opened_of_size_pos hn hpos
  obtain ⟨a', b', ha', hopen'⟩ := opened_of_size_pos hn' hpos'
  rw [div_eq_written, div_eq_written, hopen, hopen']
  rcases opened_of_finite hx with hzero | ⟨m, e, hm, hfinite⟩
  · rw [hzero, size_zero, mul_zero] at hsize
    rw [hzero, opened_eq_zero hy hsize]
    rfl
  · have hypos : 0 < size y.opened := by
      rw [hsize, hfinite]
      have hpos := @size_finite_pos s m e hm
      positivity
    obtain ⟨m', e', hm', hfinite'⟩ := opened_of_size_pos hy hypos
    rw [hfinite, hfinite', div_eq_roundedTo, div_eq_roundedTo, ← hopen, ← hopen', ← hfinite,
      ← hfinite', hsize, hsize', mul_div_mul_left _ _ (by positivity)]

/-- The quotient of a finite number and infinity is a zero of its sign. -/
theorem opened_div_infinite {x n : Double} {s : Sign}
    (hx : x.kind = .finite s) (hn : n.kind = .infinite .positive) :
    (x / n).opened = .zero (s / .positive) := by
  have hdiv : UnpackedFloat.div Format.binary64 x.opened n.opened =
      .zero (s / .positive) := by
    rw [opened_of_infinite hn]
    rcases opened_of_finite hx with hopen | ⟨m, e, hm, hopen⟩ <;> rw [hopen] <;> rfl
  rw [div_eq_written, hdiv]
  exact opened_written (by trivial)

/-! ## Values -/

theorem size_nonneg (u : UnpackedFloat) : 0 ≤ size u := by
  cases u with
  | finite s m e hm => exact size_finite_pos.le
  | zero | infinity | notANumber => exact le_rfl

theorem abs_value (x : Double) : |x.value| = size x.opened := by
  rw [value, abs_mul, abs_of_nonneg (size_nonneg _)]
  cases x.sign <;> simp [Sign.apply]

/-- Both zeros have the value zero. -/
theorem value_eq_zero_iff {x : Double} : x.value = 0 ↔ size x.opened = 0 := by
  rw [← abs_value, abs_eq_zero]

theorem value_of_positive {x : Double} (h : x.kind = .finite .positive) :
    x.value = size x.opened := by
  rw [value, sign_of_kind h]
  simp [Sign.apply]

theorem value_of_opened {x : Double} {m : Nat} {e : Int} {hm : 0 < m}
    (h : x.opened = .finite .positive m e hm) : x.value = m * 2 ^ e := by
  rw [value_of_positive (congrArg kindOf h), h]
  rfl

/-- Neither infinities nor NaNs have a size. -/
theorem kind_of_size_ne_zero {x : Double} (h : size x.opened ≠ 0) : x.kind = .finite x.sign := by
  have htaken := takenFor_opened x
  rw [kind]
  generalize x.magnitude = n, x.opened = u at *
  cases htaken with
  | finite => rfl
  | zero | infinity | nan => exact absurd rfl h

/-- A number whose value is a power of two is finite and positive. -/
theorem kind_of_value {k : ℤ} {x : Double} (h : x.value = 2 ^ k) :
    x.kind = .finite .positive ∧ size x.opened = 2 ^ k := by
  have hpos : (0 : ℚ) < 2 ^ k := by positivity
  have hsize : size x.opened = 2 ^ k := by rw [← abs_value, h, abs_of_pos hpos]
  have hsign : x.sign = .positive := by
    rw [value, hsize] at h
    cases hs : x.sign with
    | positive => rfl
    | negative =>
      rw [hs] at h
      simp only [Sign.apply, Int.cast_neg, Int.cast_one] at h
      linarith
  exact ⟨hsign ▸ kind_of_size_ne_zero (by rw [hsize]; exact hpos.ne'), hsize⟩

/-- An exact product with a power of two is the number with another exponent. -/
theorem scales_mul {k : ℤ} {s x : Double} (power : s.value = 2 ^ k) (hx : x.isFinite = true)
    (finite : (s * x).isFinite = true) (exact : (s * x).value = s.value * x.value) :
    Scales k x (s * x) := by
  obtain ⟨hs, hsize⟩ := kind_of_value power
  have hproduct : size (s * x).opened = 2 ^ k * size x.opened := by
    rw [← abs_value, exact, abs_mul, abs_value, abs_value, hsize]
  have hkind := isFinite_iff_kind.mp hx
  -- the value of a zero does not tell its sign, so the sign is that of the product before it is rounded
  have hsign : kindOf (UnpackedFloat.mul Format.binary64 s.opened x.opened) =
      .finite x.sign := by
    obtain ⟨m, e, hm, hopen⟩ := opened_of_size_pos hs (by rw [hsize]; positivity)
    have hone : .positive * x.sign = x.sign := by cases x.sign <;> rfl
    rw [hopen]
    rcases opened_of_finite hkind with hzero | ⟨m', e', hm', hfinite⟩
    · rw [hzero]
      exact congrArg Kind.finite hone
    · rw [hfinite, UnpackedFloat.mul, kindOf_roundWithAccuracy, hone]
  refine ⟨x.sign, hkind, ?_, hproduct⟩
  rw [isFinite_iff_kind] at finite
  rcases kind_written (UnpackedFloat.mul Format.binary64 s.opened x.opened)
    with hwritten | ⟨s', -, hwritten⟩
  · exact hwritten.trans hsign
  · rw [mul_eq_written, hwritten] at finite
    cases finite

theorem NotBelowZero.kind_of_isFinite {x : Double} (h : x.NotBelowZero)
    (finite : x.isFinite = true) : x.kind = .finite .positive := by
  refine h.resolve_right fun hinfinite => ?_
  rw [isFinite_iff_kind.mp finite] at hinfinite
  cases hinfinite

/-- What is not below zero and not finite is infinite: it is no NaN. -/
theorem NotBelowZero.kind_of_not_isFinite {x : Double} (h : x.NotBelowZero)
    (infinite : x.isFinite = false) : x.kind = .infinite .positive := by
  refine h.resolve_left fun hfinite => ?_
  rw [isFinite_iff_kind.mpr (sign_of_kind hfinite ▸ hfinite)] at infinite
  cases infinite

/-! ## Rounding -/

/-- A number of units has their size, also when 2 ^ 53 of them are taken for half as many. -/
theorem size_settled {s : Sign} {r : Nat} {t : Int} (hr : r ≤ 2 ^ 53) :
    size (settled s r t) = r * 2 ^ t := by
  rw [settled]
  split
  · next hzero => rw [hzero, size_zero, Nat.cast_zero, zero_mul]
  · split
    · rfl
    · next hlarge =>
      obtain rfl : r = 2 ^ 53 := by omega
      rw [size, zpow_add₀ (by decide)]
      push_cast
      ring

theorem kindOf_settled {s : Sign} {r : Nat} {t : Int} (hr : r ≠ 0) :
    kindOf (settled s r t) = .finite s := by
  rw [settled, dif_neg hr]
  split <;> rfl

/-- Within the range of the normal numbers, it is a number as patterns hold it. -/
theorem canonical_settled {s : Sign} {r : Nat} {t : Int} (hlow : 2 ^ 52 ≤ r) (hr : r ≤ 2 ^ 53)
    (ht : -1074 ≤ t) (ht' : t ≤ 970) : Canonical (settled s r t) := by
  rw [settled, dif_neg (by omega)]
  split
  · next hlt => exact ⟨hlt, ht, by omega, .inl hlow⟩
  · exact ⟨by decide, by omega, by omega, .inl (by decide)⟩

/-- A rounded number that has all its bits is written as it is, unless it is too large. -/
theorem written_settled {s : Sign} {r : Nat} {t : Int} (hlow : 2 ^ 52 ≤ r) (hr : r ≤ 2 ^ 53)
    (ht : -1074 ≤ t) : (written (settled s r t)).opened = settled s r t ∨
      (written (settled s r t)).kind = .infinite s := by
  -- an exponent that is too large is written as infinity, whatever the mantissa
  have hlarge : ∀ (m : Nat) (e : Int) (hm : 0 < m), 971 < e →
      (written (.finite s m e hm)).kind = .infinite s := by
    intro m e hm he
    have hbiased : 2 ^ Format.binary64.exponentBits ≤ (e + Format.binary64.exponentBias +
        Format.binary64.mantissaBitsWithoutImplicit).toNat + 1 := by
      show 2048 ≤ (e + 1023 + 52).toNat + 1
      omega
    have hpack : pack Format.binary64 (.finite s m e hm) = pack Format.binary64 (.infinity s) := by
      simp only [pack, if_pos hbiased]
    have hwritten : written (.finite s m e hm) = written (.infinity s) :=
      congrArg (fun b => Double.mk (UInt64.ofBitVec b)) hpack
    rw [hwritten, kind, opened_written (u := .infinity s) trivial]
    rfl
  rw [settled, dif_neg (by omega)]
  split
  · next hlt =>
    rcases lt_or_ge 971 t with he | he
    · exact .inr (hlarge _ _ _ he)
    · exact .inl (opened_written ⟨hlt, ht, he, .inl hlow⟩)
  · rcases lt_or_ge 971 (t + 1) with he | he
    · exact .inr (hlarge _ _ _ he)
    · exact .inl (opened_written ⟨by decide, by omega, he, .inl (by decide)⟩)

/-- A power of two moves the logarithm. -/
theorem log_mul (k : ℤ) {v : ℚ} (hv : 0 < v) : Int.log 2 (2 ^ k * v) = Int.log 2 v + k := by
  refine log_eq ?_ ?_
  · rw [zpow_add₀ (by decide), mul_comm]
    exact mul_le_mul_of_nonneg_left (zpow_log_le hv) (by positivity)
  · rw [add_right_comm, zpow_add₀ (by decide), mul_comm]
    exact mul_lt_mul_of_pos_right lt_zpow_log (by positivity)

/-- Among normal numbers the unit moves along with a power of two. -/
theorem unit_mul {k : ℤ} {v : ℚ} (hv : 2 ^ (-1022 : ℤ) ≤ v) (hv' : 2 ^ (-1022 : ℤ) ≤ 2 ^ k * v) :
    unit (2 ^ k * v) = unit v + k := by
  have hlog := log_mul k (lt_of_lt_of_le (by positivity) hv)
  have hlow := le_log hv
  have hlow' := le_log hv'
  rw [hlog] at hlow'
  rw [unit, unit, hlog]
  omega

/-- A normal value is rounded to 2 ^ 52 units at least. -/
theorem le_nearest_unit {v : ℚ} (hv : 2 ^ (-1022 : ℤ) ≤ v) :
    2 ^ 52 ≤ nearest (v / 2 ^ unit v) := by
  have hpos : 0 < v := lt_of_lt_of_le (by positivity) hv
  have hlow := le_log hv
  have hunit : unit v = Int.log 2 v - 52 := by
    rw [unit]
    omega
  refine le_nearest ?_
  rw [le_div_iff₀ (by positivity), hunit]
  refine le_trans (le_of_eq ?_) (zpow_log_le hpos)
  rw [Nat.cast_pow, Nat.cast_ofNat, ← zpow_natCast, ← zpow_add₀ (by decide)]
  congr 1
  push_cast
  omega

/-- A normal value that is rounded is infinite or still normal. -/
theorem written_roundedTo {s : Sign} {v : ℚ} (hv : 2 ^ (-1022 : ℤ) ≤ v) :
    (written (roundedTo s v)).kind = .infinite s ∨
      (written (roundedTo s v)).kind = .finite s ∧
        size (written (roundedTo s v)).opened = nearest (v / 2 ^ unit v) * 2 ^ unit v ∧
        2 ^ (-1022 : ℤ) ≤ size (written (roundedTo s v)).opened := by
  have hpos : 0 < v := lt_of_lt_of_le (by positivity) hv
  have hlow := le_nearest_unit hv
  have hr := nearest_unit_le hpos
  rcases written_settled (s := s) hlow hr (unit_ge v) with hsame | hlarge
  · right
    rw [roundedTo, kind, hsame, size_settled hr]
    refine ⟨kindOf_settled (by omega), rfl, ?_⟩
    · have hcast : (2 : ℚ) ^ 52 ≤ nearest (v / 2 ^ unit v) := by exact_mod_cast hlow
      have hpow : (2 : ℚ) ^ (-1074 : ℤ) ≤ 2 ^ unit v := zpow_le_zpow_right₀ (by decide) (unit_ge v)
      calc (2 : ℚ) ^ (-1022 : ℤ) = 2 ^ 52 * 2 ^ (-1074 : ℤ) := by
            rw [← zpow_natCast, ← zpow_add₀ (by decide)]
            norm_num
        _ ≤ nearest (v / 2 ^ unit v) * 2 ^ unit v := by gcongr
  · exact .inl hlarge

/-- Rounding keeps a power of two between normal values. -/
theorem scales_written_roundedTo {k : ℤ} {s : Sign} {v : ℚ} (hv : 2 ^ (-1022 : ℤ) ≤ v)
    (hv' : 2 ^ (-1022 : ℤ) ≤ 2 ^ k * v) (h : (written (roundedTo s v)).kind ≠ .infinite s)
    (h' : (written (roundedTo s (2 ^ k * v))).kind ≠ .infinite s) :
    Scales k (written (roundedTo s v)) (written (roundedTo s (2 ^ k * v))) := by
  obtain ⟨hkind, hsize, -⟩ := (written_roundedTo hv).resolve_left h
  obtain ⟨hkind', hsize', -⟩ := (written_roundedTo hv').resolve_left h'
  have hunits : 2 ^ k * v / 2 ^ (unit v + k) = v / 2 ^ unit v := by
    rw [zpow_add₀ (by decide), mul_comm (2 ^ k), mul_div_mul_right _ _ (by positivity)]
  refine ⟨s, hkind, hkind', ?_⟩
  rw [hsize, hsize', unit_mul hv hv', hunits, zpow_add₀ (by decide)]
  ring

/-! ## Roots -/

/-- The unit to which the root of a positive number is rounded, as a power of two. -/
def rootUnit (v : ℚ) : ℤ := (Int.log 2 v + 2) / 2 - 53

/-- The root of a natural number, rounded. -/
def roundedRoot (n : Nat) : Nat :=
  (ExtendedMantissa.ofMantissaAndAccuracy n.sqrt
    (if n - n.sqrt * n.sqrt = 0 then .exact
      else .inexact (if n - n.sqrt * n.sqrt ≤ n.sqrt then .lt else .gt))).roundedMantissa

theorem mantissa_ofMantissaAndAccuracy (m : Nat) (a : Accuracy) :
    (ExtendedMantissa.ofMantissaAndAccuracy m a).mantissa = m := by
  rcases a with _ | o
  · rfl
  · cases o <;> rfl

/-- In units of its root a number has 105 or 106 bits. -/
theorem bounds_of_rootUnit {v : ℚ} (hv : 0 < v) {n : Nat} (h : n * 2 ^ (2 * rootUnit v) = v) :
    2 ^ 104 ≤ n ∧ n < 2 ^ 106 := by
  have hpow : (0 : ℚ) < 2 ^ (2 * rootUnit v) := by positivity
  have hscale : ∀ b : ℕ, (2 : ℚ) ^ b * 2 ^ (2 * rootUnit v) = 2 ^ (b + 2 * rootUnit v) := by
    intro b
    rw [zpow_add₀ (by decide), zpow_natCast]
  constructor
  · have hle : (2 : ℚ) ^ 104 * 2 ^ (2 * rootUnit v) ≤ n * 2 ^ (2 * rootUnit v) := by
      rw [h, hscale]
      refine le_trans (zpow_le_zpow_right₀ (by decide) ?_) (zpow_log_le hv)
      rw [rootUnit]
      omega
    exact_mod_cast le_of_mul_le_mul_right hle hpow
  · have hlt : (n : ℚ) * 2 ^ (2 * rootUnit v) < 2 ^ 106 * 2 ^ (2 * rootUnit v) := by
      rw [h, hscale]
      refine lt_of_lt_of_le lt_zpow_log (zpow_le_zpow_right₀ (by decide) ?_)
      rw [rootUnit]
      omega
    exact_mod_cast lt_of_mul_lt_mul_right hlt hpow.le

/-- The unit of the root is the exponent that the root is looked for with. -/
theorem targetExponent_sqrt {s : Sign} {m : Nat} {e : Int} {hm : 0 < m}
    (h : Canonical (.finite s m e hm)) :
    min (e.ediv 2) (Format.binary64.targetExponent ((totalExponent m e + 1).ediv 2)) =
      rootUnit (size (.finite s m e hm)) := by
  have hbits : (Format.binary64.mantissaBits : Int) = 53 := by decide
  have hleast : Format.binary64.minExponent = -1074 := by decide
  obtain ⟨hlt, hlow, -, -⟩ := h
  have hlog : m.log2 < 53 := (Nat.log2_lt (Nat.pos_iff_ne_zero.mp hm)).mpr hlt
  rw [rootUnit, log_size, Format.targetExponent, totalExponent, hbits, hleast]
  show min (e / 2) (max (((m.log2 : Int) + 1 + e + 1) / 2 - 53) (-1074)) = _
  omega

/-- A number is a natural number of units of its root. -/
theorem shiftLeft_rootUnit {s : Sign} {m : Nat} {e : Int} {hm : 0 < m}
    (h : Canonical (.finite s m e hm)) :
    ((m <<< (e - 2 * rootUnit (size (.finite s m e hm))).toNat : Nat) : ℚ) *
      2 ^ (2 * rootUnit (size (.finite s m e hm))) = size (.finite s m e hm) := by
  obtain ⟨hlt, -, -, -⟩ := h
  have hlog : m.log2 < 53 := (Nat.log2_lt (Nat.pos_iff_ne_zero.mp hm)).mpr hlt
  generalize hn : (e - 2 * rootUnit (size (.finite s m e hm))).toNat = n
  have hsplit : 2 * rootUnit (size (.finite s m e hm)) = e - n := by
    rw [rootUnit, log_size] at *
    omega
  rw [hsplit]
  exact shiftLeft_value m n e

/-- A root is rounded to its unit, as other results are. -/
theorem sqrt_eq_settled {m : Nat} {e : Int} {hm : 0 < m} {n : Nat} {v : ℚ}
    (h : Canonical (.finite .positive m e hm)) (hv : v = size (.finite .positive m e hm))
    (hn : n * 2 ^ (2 * rootUnit v) = v) :
    UnpackedFloat.sqrt Format.binary64 (.finite .positive m e hm) =
      settled .positive (roundedRoot n) (rootUnit v) := by
  have hshift : m <<< (e - 2 * rootUnit v).toNat = n := by
    have hpow : (2 : ℚ) ^ (2 * rootUnit v) ≠ 0 := by positivity
    have hsame := (hv ▸ shiftLeft_rootUnit h).trans hn.symm
    exact_mod_cast mul_right_cancel₀ hpow hsame
  obtain ⟨hlow, hhigh⟩ := bounds_of_rootUnit (hv ▸ size_finite_pos) hn
  have hroot : 2 ^ 52 ≤ n.sqrt := Nat.le_sqrt.mpr (by omega)
  have hroot' : n.sqrt < 2 ^ 53 := Nat.sqrt_lt.mpr (by omega)
  have hlog : n.sqrt.log2 = 52 := (Nat.log2_eq_iff (by omega)).mpr ⟨hroot, hroot'⟩
  rw [UnpackedFloat.sqrt, sqrtCore, targetExponent_sqrt h, ← hv]
  simp only [hshift]
  have hleast : -1074 ≤ rootUnit v := by
    obtain ⟨-, hlow, -, -⟩ := h
    rw [hv, rootUnit, log_size]
    omega
  refine roundWithAccuracy_eq_settled le_rfl ?_ ?_ ?_
  · rw [hlog]
    omega
  · rw [Int.sub_self]
    rfl
  · refine le_trans (roundedMantissa_bounds _).2 ?_
    rw [mantissa_ofMantissaAndAccuracy]
    omega

/-- Twice 53 bits under the root leave 53 bits. -/
theorem roundedRoot_bounds {n : Nat} (hlow : 2 ^ 104 ≤ n) (hhigh : n < 2 ^ 106) :
    2 ^ 52 ≤ roundedRoot n ∧ roundedRoot n ≤ 2 ^ 53 := by
  have hroot : 2 ^ 52 ≤ n.sqrt := Nat.le_sqrt.mpr (by omega)
  have hroot' : n.sqrt < 2 ^ 53 := Nat.sqrt_lt.mpr (by omega)
  have hbounds := roundedMantissa_bounds (ExtendedMantissa.ofMantissaAndAccuracy n.sqrt
    (if n - n.sqrt * n.sqrt = 0 then .exact
      else .inexact (if n - n.sqrt * n.sqrt ≤ n.sqrt then .lt else .gt)))
  rw [mantissa_ofMantissaAndAccuracy] at hbounds
  rw [roundedRoot]
  omega

/-- The root of a positive number is never too large, nor too small to have all its bits. -/
theorem opened_sqrt {x : Double} {n : Nat} (hx : x.kind = .finite .positive)
    (hpos : 0 < size x.opened) (hn : n * 2 ^ (2 * rootUnit (size x.opened)) = size x.opened) :
    (SignHash.sqrt x).kind = .finite .positive ∧
      size (SignHash.sqrt x).opened = roundedRoot n * 2 ^ rootUnit (size x.opened) ∧
      2 ^ 52 ≤ roundedRoot n := by
  obtain ⟨m, e, hm, hopen⟩ := opened_of_size_pos hx hpos
  have hcanonical : Canonical (.finite .positive m e hm) := hopen ▸ canonical_opened x
  obtain ⟨hlow, hhigh⟩ := bounds_of_rootUnit hpos hn
  obtain ⟨hroot, hroot'⟩ := roundedRoot_bounds hlow hhigh
  have hunit : -1074 ≤ rootUnit (size x.opened) ∧ rootUnit (size x.opened) ≤ 970 := by
    obtain ⟨hlt, hlow, hhigh, -⟩ := hcanonical
    have hlog : m.log2 < 53 := (Nat.log2_lt (Nat.pos_iff_ne_zero.mp hm)).mpr hlt
    rw [hopen, rootUnit, log_size]
    omega
  have hsettled : (SignHash.sqrt x).opened =
      settled .positive (roundedRoot n) (rootUnit (size x.opened)) := by
    rw [sqrt_eq_written]
    conv => lhs; rw [hopen]
    rw [sqrt_eq_settled hcanonical (congrArg size hopen) hn]
    exact opened_written (canonical_settled hroot hroot' hunit.1 hunit.2)
  rw [kind, hsettled, size_settled hroot']
  exact ⟨kindOf_settled (by omega), rfl, hroot⟩

/-- The root of 2 ^ (2 k) times a number is 2 ^ k times its root. -/
theorem Scales.sqrt {k : ℤ} {x y : Double} (h : Scales (2 * k) x y)
    (hx : x.kind = .finite .positive) (hpos : 0 < size x.opened) :
    Scales k (SignHash.sqrt x) (SignHash.sqrt y) ∧
      (SignHash.sqrt x).kind = .finite .positive ∧ 0 < size (SignHash.sqrt x).opened := by
  obtain ⟨s, hxs, hy, hsize⟩ := h
  obtain rfl : s = .positive := Kind.finite.inj (hxs.symm.trans hx)
  have hypos : 0 < size y.opened := by
    rw [hsize]
    positivity
  obtain ⟨m, e, hm, hopen⟩ := opened_of_size_pos hx hpos
  -- both numbers are the same count of units of their roots, and so have the same rounded root
  obtain ⟨n, hn⟩ : ∃ n : Nat, n * 2 ^ (2 * rootUnit (size x.opened)) = size x.opened :=
    ⟨_, hopen ▸ shiftLeft_rootUnit (hopen ▸ canonical_opened x)⟩
  have hunit : rootUnit (size y.opened) = rootUnit (size x.opened) + k := by
    rw [hsize, rootUnit, log_mul _ hpos, rootUnit]
    omega
  have hn' : n * 2 ^ (2 * rootUnit (size y.opened)) = size y.opened := by
    rw [hunit, mul_add, zpow_add₀ (by decide), ← mul_assoc, hn, hsize, mul_comm]
  obtain ⟨hkind, hroot, hbits⟩ := opened_sqrt hx hpos hn
  obtain ⟨hkind', hroot', -⟩ := opened_sqrt hy hypos hn'
  refine ⟨⟨.positive, hkind, hkind', ?_⟩, hkind, ?_⟩
  · rw [hroot, hroot', hunit, zpow_add₀ (by decide)]
    ring
  · have hrootpos : 0 < roundedRoot n := by omega
    rw [hroot]
    positivity

/-! ## Sums and squares -/

/-- A sum is finite only if its terms are. -/
theorem finite_of_add {x y : Double} (hx : x.NotBelowZero) (hy : y.NotBelowZero)
    (h : (x + y).kind = .finite .positive) :
    x.kind = .finite .positive ∧ y.kind = .finite .positive := by
  have hinfinite : ∀ u, kindOf u = .infinite .positive → (written u).kind = .infinite .positive := by
    intro u hu
    rcases kind_written u with hkind | ⟨s, hs, -⟩
    · exact hkind.trans hu
    · rw [hu] at hs
      cases hs
  have hsum : ∀ u, (x + y) = written u → kindOf u ≠ .infinite .positive := by
    intro u hu hkind
    rw [hu, hinfinite u hkind] at h
    cases h
  constructor
  · refine hx.resolve_right fun hlarge => hsum _ (add_eq_written x y) ?_
    rw [opened_of_infinite hlarge]
    rcases hy.opened with hopen | hopen | ⟨m, e, hm, hopen⟩ <;> rw [hopen] <;> rfl
  · refine hy.resolve_right fun hlarge => hsum _ (add_eq_written x y) ?_
    rw [opened_of_infinite hlarge]
    rcases hx.opened with hopen | hopen | ⟨m, e, hm, hopen⟩ <;> rw [hopen] <;> rfl

/-- Zero adds nothing. -/
theorem opened_add_zero {x y : Double} (hx : x.kind = .finite .positive)
    (hy : y.kind = .finite .positive) (h : size x.opened = 0) :
    (x + y).opened = y.opened ∧ (y + x).opened = y.opened := by
  have hzero := opened_eq_zero hx h
  have hwritten : (written y.opened).opened = y.opened := opened_written (canonical_opened y)
  rw [add_eq_written, add_eq_written, hzero]
  rcases opened_of_finite hy with hopen | ⟨m, e, hm, hopen⟩ <;> rw [hopen] at hwritten ⊢ <;>
    exact ⟨hwritten, hwritten⟩

theorem add_eq_written_roundedTo {x y : Double} (hx : x.kind = .finite .positive)
    (hy : y.kind = .finite .positive) (hxpos : 0 < size x.opened) (hypos : 0 < size y.opened) :
    x + y = written (roundedTo .positive (size x.opened + size y.opened)) := by
  obtain ⟨m, e, hm, hopen⟩ := opened_of_size_pos hx hxpos
  obtain ⟨m', e', hm', hopen'⟩ := opened_of_size_pos hy hypos
  rw [add_eq_written, hopen, hopen', add_eq_roundedTo]

theorem mul_self_eq_written_roundedTo {x : Double} {s : Sign} (hx : x.kind = .finite s)
    (hpos : 0 < size x.opened) :
    x * x = written (roundedTo .positive (size x.opened * size x.opened)) := by
  obtain ⟨m, e, hm, hopen⟩ := opened_of_size_pos hx hpos
  have hcanonical : Canonical (.finite s m e hm) := hopen ▸ canonical_opened x
  have hsign : s * s = .positive := by cases s <;> rfl
  rw [mul_eq_written, hopen, mul_eq_roundedTo hcanonical hcanonical, hsign]

/-- The square of a zero of either sign is the positive zero. -/
theorem mul_self_zero {x : Double} {s : Sign} (hx : x.kind = .finite s)
    (h : size x.opened = 0) :
    (x * x).kind = .finite .positive ∧ (x * x).opened = .zero .positive := by
  have hsign : s * s = .positive := by cases s <;> rfl
  have hopen : (x * x).opened = .zero .positive := by
    rw [mul_eq_written, opened_eq_zero hx h, UnpackedFloat.mul, hsign]
    rfl
  exact ⟨congrArg kindOf hopen, hopen⟩

/-- Numbers that are not below zero, and if both are finite then the second is 2 ^ k times the first:
both are zero, which is what `zero` says, or both are normal. -/
def Tracks (k : ℤ) (zero : Prop) (x y : Double) : Prop :=
  x.NotBelowZero ∧ y.NotBelowZero ∧
    (x.kind = .finite .positive → y.kind = .finite .positive →
      size y.opened = 2 ^ k * size x.opened ∧
        (zero ∧ size x.opened = 0 ∨
          ¬zero ∧ 2 ^ (-1022 : ℤ) ≤ size x.opened ∧ 2 ^ (-1022 : ℤ) ≤ size y.opened))

theorem Tracks.congr {k : ℤ} {zero zero' : Prop} {x y : Double} (h : Tracks k zero x y)
    (hiff : zero ↔ zero') : Tracks k zero' x y := propext hiff ▸ h

/-- Rounded normal values track each other as the values do. -/
theorem tracks_written_roundedTo {k : ℤ} {zero : Prop} {v : ℚ} (hzero : ¬zero)
    (hv : 2 ^ (-1022 : ℤ) ≤ v) (hv' : 2 ^ (-1022 : ℤ) ≤ 2 ^ k * v) :
    Tracks k zero (written (roundedTo .positive v)) (written (roundedTo .positive (2 ^ k * v))) := by
  have hnormal := written_roundedTo (s := .positive) hv
  have hnormal' := written_roundedTo (s := .positive) hv'
  refine ⟨hnormal.symm.imp_left And.left, hnormal'.symm.imp_left And.left, fun hx hy => ?_⟩
  have hfinite : (written (roundedTo .positive v)).kind ≠ .infinite .positive := by
    rw [hx]
    nofun
  have hfinite' : (written (roundedTo .positive (2 ^ k * v))).kind ≠ .infinite .positive := by
    rw [hy]
    nofun
  obtain ⟨s, -, -, hsize⟩ := scales_written_roundedTo hv hv' hfinite hfinite'
  exact ⟨hsize, .inr ⟨hzero, (hnormal.resolve_left hfinite).2.2, (hnormal'.resolve_left hfinite').2.2⟩⟩

/-- Sums track each other as their terms do, and are zero where both terms are. -/
theorem Tracks.add {k : ℤ} {zero zero' : Prop} {x y x' y' : Double} (h : Tracks k zero x y)
    (h' : Tracks k zero' x' y') : Tracks k (zero ∧ zero') (x + x') (y + y') := by
  obtain ⟨hx, hy, htrack⟩ := h
  obtain ⟨hx', hy', htrack'⟩ := h'
  refine ⟨hx.add hx', hy.add hy', fun hsum hsum' => ?_⟩
  -- if one of the terms is infinite then so is the sum, and there is nothing to show
  obtain ⟨hx, hx'⟩ := finite_of_add hx hx' hsum
  obtain ⟨hy, hy'⟩ := finite_of_add hy hy' hsum'
  obtain ⟨hsize, hzero⟩ := htrack hx hy
  obtain ⟨hsize', hzero'⟩ := htrack' hx' hy'
  rcases hzero with ⟨hzero, hempty⟩ | ⟨hzero, hlow, hlow'⟩
  · have hempty' : size y.opened = 0 := by rw [hsize, hempty, mul_zero]
    rw [(opened_add_zero hx hx' hempty).1, (opened_add_zero hy hy' hempty').1]
    exact ⟨hsize', hzero'.imp (And.imp_left fun h => ⟨hzero, h⟩) (And.imp_left fun h h' => h h'.2)⟩
  · have hpow : (0 : ℚ) < 2 ^ (-1022 : ℤ) := by positivity
    rcases hzero' with ⟨hzero', hempty⟩ | ⟨hzero', hlow'', hlow'''⟩
    · have hempty' : size y'.opened = 0 := by rw [hsize', hempty, mul_zero]
      rw [(opened_add_zero hx' hx hempty).2, (opened_add_zero hy' hy hempty').2]
      exact ⟨hsize, .inr ⟨fun h => hzero h.1, hlow, hlow'⟩⟩
    · have hvalue : size y.opened + size y'.opened = 2 ^ k * (size x.opened + size x'.opened) := by
        rw [hsize, hsize', mul_add]
      have hnormal : 2 ^ (-1022 : ℤ) ≤ size x.opened + size x'.opened := by linarith
      have hnormal' : 2 ^ (-1022 : ℤ) ≤ 2 ^ k * (size x.opened + size x'.opened) := by linarith
      have hwritten := add_eq_written_roundedTo hx hx' (by linarith) (by linarith)
      have hwritten' := add_eq_written_roundedTo hy hy' (by linarith) (by linarith)
      rw [hvalue] at hwritten'
      rw [hwritten] at hsum ⊢
      rw [hwritten'] at hsum' ⊢
      exact (tracks_written_roundedTo (fun h => hzero h.1) hnormal hnormal').2.2 hsum hsum'

/-- Squares of numbers that are zero or not too small track each other. -/
theorem Scales.tracks_mul_self {k : ℤ} {x y : Double} (h : Scales k x y)
    (large : size x.opened = 0 ∨
      2 ^ (-511 : ℤ) ≤ size x.opened ∧ 2 ^ (-511 : ℤ) ≤ size y.opened) :
    Tracks (2 * k) (size x.opened = 0) (x * x) (y * y) := by
  have hzeroiff := h.zero_iff
  obtain ⟨s, hx, hy, hsize⟩ := h
  rcases large with hzero | ⟨hlarge, hlarge'⟩
  · obtain ⟨hkind, hopen⟩ := mul_self_zero hx hzero
    obtain ⟨hkind', hopen'⟩ := mul_self_zero hy (hzeroiff.mpr hzero)
    refine ⟨.inl hkind, .inl hkind', fun _ _ => ?_⟩
    rw [hopen, hopen', size_zero, mul_zero]
    exact ⟨rfl, .inl ⟨hzero, rfl⟩⟩
  · have hpow : (0 : ℚ) < 2 ^ (-511 : ℤ) := by positivity
    have hsquare : ∀ q : ℚ, 2 ^ (-511 : ℤ) ≤ q → 2 ^ (-1022 : ℤ) ≤ q * q := by
      intro q hq
      calc (2 : ℚ) ^ (-1022 : ℤ) = 2 ^ (-511 : ℤ) * 2 ^ (-511 : ℤ) := by
            rw [← zpow_add₀ (by decide)]
            rfl
        _ ≤ q * q := mul_le_mul hq hq hpow.le (hpow.le.trans hq)
    have hvalue : size y.opened * size y.opened =
        2 ^ (2 * k) * (size x.opened * size x.opened) := by
      rw [hsize, two_mul, zpow_add₀ (by decide)]
      ring
    have hpos := lt_of_lt_of_le hpow hlarge
    rw [mul_self_eq_written_roundedTo hx hpos,
      mul_self_eq_written_roundedTo hy (lt_of_lt_of_le hpow hlarge'), hvalue]
    exact tracks_written_roundedTo hpos.ne' (hsquare _ hlarge) (hvalue ▸ hsquare _ hlarge')

end SignHash.Double
