import SignHash.Proofs.Scaling

/-!
# Counts

A count that is not zero is a positive number. A count below 2 ^ 53 is written as it is, and multiplied
by one; a larger one is rounded.
-/

namespace SignHash.Double

open Float.Model (UnpackedFloat Format)
open Float.Model.UnpackedFloat

/-! ## Positive numbers -/

theorem opened_of_isZero {x : Double} (h : x.isZero = true) : x.opened = .zero x.sign := by
  have htaken := takenFor_opened x
  rw [isZero_iff.mp h] at htaken
  generalize x.opened = u at htaken
  cases htaken with
  | zero => rfl
  | finite | nan => omega

/-- What is positive can be divided by. -/
theorem isZero_of_pos {x : Double} (h : 0 < x) : x.isZero = false := by
  refine Bool.eq_false_iff.mpr fun hzero => ?_
  have hlt := lt_iff.mp h
  rw [opened_of_isZero hzero] at hlt
  cases hlt

/-- A normal value is not rounded to zero. -/
theorem pos_written_roundedTo {v : ℚ} (hv : 2 ^ (-1022 : ℤ) ≤ v) :
    0 < written (roundedTo .positive v) := by
  rcases written_roundedTo (s := .positive) hv with hlarge | ⟨hkind, -, hsize⟩
  · rw [lt_iff, opened_of_infinite hlarge]
    rfl
  · exact zero_lt_of_size_pos hkind (lt_of_lt_of_le (by positivity) hsize)

/-- A normal value times one is not rounded to zero. -/
theorem pos_written_roundedTo_mul_one {v : ℚ} (hv : 2 ^ (-1022 : ℤ) ≤ v) :
    0 < written (roundedTo .positive v) * 1 := by
  have hone : (1 : Double).opened = .finite .positive (2 ^ 52) (-52) (by decide) := rfl
  rw [mul_eq_written, hone]
  rcases written_roundedTo (s := .positive) hv with hlarge | ⟨hkind, -, hsize⟩
  · rw [opened_of_infinite hlarge, lt_iff]
    rfl
  · obtain ⟨m, e, hm, hopen⟩ := opened_of_size_pos hkind (lt_of_lt_of_le (by positivity) hsize)
    have hsizeone : size (.finite .positive (2 ^ 52) (-52) (by decide)) = 1 := by norm_num [size]
    rw [hopen] at hsize ⊢
    rw [mul_eq_roundedTo_of_le (.inl (Nat.le_mul_of_pos_left _ hm)), hsizeone, mul_one]
    exact pos_written_roundedTo hsize

/-! ## Counts -/

theorem ofNat_eq_roundedTo {n : Nat} (h : 0 < n) :
    UnpackedFloat.ofNat Format.binary64 n = roundedTo .positive n := by
  have hround := round_eq_roundedTo .positive h 0
  rw [zpow_zero, mul_one] at hround
  rw [UnpackedFloat.ofNat, UnpackedFloat.ofInt, UnpackedFloat.normalize,
    Int.compare_eq_gt.mpr (Int.natCast_pos.mpr h)]
  exact hround

theorem ofScientific_eq_roundedTo {n : Nat} (h : 2 ^ 53 ≤ n) :
    UnpackedFloat.ofScientific Format.binary64 n 0 = roundedTo .positive n := by
  have hsmall : ¬(0 : ℤ) > 2 ^ Format.binary64.exponentBits := not_lt.mpr (by positivity)
  have hlarge : ¬(0 : ℤ) < -(2 ^ Format.binary64.exponentBits + n.log2) :=
    not_lt.mpr (neg_nonpos.mpr (by positivity))
  have hn : n ≠ 0 := by
    rintro rfl
    exact absurd h (by norm_num)
  rw [UnpackedFloat.ofScientific, dif_neg hn, if_neg hsmall, if_neg hlarge, if_pos (Int.le_refl 0)]
  have hshift : n <<< Format.binary64.mantissaBits = n * 2 ^ 53 := Nat.shiftLeft_eq n 53
  have hbits : (Format.binary64.mantissaBits : ℤ) = 53 := rfl
  have hone : 10 ^ Int.toNat 0 = 1 := rfl
  rw [mul_eq_roundedTo_of_le]
  · refine congrArg (roundedTo .positive) ?_
    rw [size, size, hshift, hbits, hone, Nat.cast_mul, Nat.cast_pow, zpow_neg, zpow_zero,
      Nat.cast_one, mul_one, mul_one]
    exact mul_inv_cancel_right₀ (by positivity) _
  · left
    rw [hshift, hone]
    omega

/-- A count that is not zero is a positive number. -/
theorem pos_ofCount {n : Nat} (h : 0 < n) : 0 < (OfCount.ofCount n : Double) := by
  have hnormal : 2 ^ (-1022 : ℤ) ≤ (n : ℚ) :=
    (zpow_le_one_of_nonpos₀ (by norm_num) (by decide)).trans (by exact_mod_cast h)
  show 0 < ofFloat (Float.ofScientific n false 0)
  rw [Float.ofScientific]
  -- a count that fits is a word times ten to the zero; a larger one is rounded at once
  split
  · next hsmall =>
    have hword : n.toUInt64.toNat = n := Nat.mod_eq_of_lt (hsmall.1.trans (by decide))
    have hproduct : ofFloat (n.toUInt64.toFloat * Float.ofBits 0x3FF0000000000000) =
      written (UnpackedFloat.mul Format.binary64 (unpack Format.binary64 (pack Format.binary64
        (UnpackedFloat.ofNat Format.binary64 n.toUInt64.toNat))) (1 : Double).opened) := rfl
    have hopened : ∀ u, unpack Format.binary64 (pack Format.binary64 u) = (written u).opened :=
      fun u => (unpack_pack (takenFor_unpack _).canonical).symm
    show 0 < ofFloat (n.toUInt64.toFloat * Float.ofBits 0x3FF0000000000000)
    rw [hproduct, hword, ofNat_eq_roundedTo h, hopened, ← mul_eq_written]
    exact pos_written_roundedTo_mul_one hnormal
  · next hlarge =>
    show 0 < written (UnpackedFloat.ofScientific Format.binary64 n 0)
    rw [ofScientific_eq_roundedTo (by omega)]
    exact pos_written_roundedTo hnormal

end SignHash.Double
