import SignHash.Proofs.Double

/-!
# The order of binary64 numbers

A number is its sign and its magnitude, the pattern of the other bits. Numbers that are not NaN are in
the order of their magnitudes with their signs, where the two zeros come together; the order of all
patterns keeps this order and takes the zeros apart.
-/

namespace SignHash.Double

open Float.Model (UnpackedFloat Format)
open Float.Model.UnpackedFloat

/-! ## What a pattern is taken for -/

/-- What a pattern can be taken for: of all ways to write a finite number, the one with as large a
mantissa as there is room for, or else with the least exponent. -/
def Canonical : UnpackedFloat → Prop
  | .finite _ m e _ => m < 2 ^ 53 ∧ -1074 ≤ e ∧ e ≤ 971 ∧ (2 ^ 52 ≤ m ∨ e = -1074)
  | _ => True

/-- What a pattern is taken for, by its sign and its other bits. -/
inductive TakenFor (s : Sign) : Nat → UnpackedFloat → Prop where
  | zero : TakenFor s 0 (.zero s)
  | finite (n m : Nat) (e : Int) (hm : 0 < m) (h : Canonical (.finite s m e hm))
    (hn : n = (e + 1074).toNat * 2 ^ 52 + m) : TakenFor s n (.finite s m e hm)
  | infinity : TakenFor s (2047 * 2 ^ 52) (.infinity s)
  | nan (n : Nat) (h : 2047 * 2 ^ 52 < n) : TakenFor s n .notANumber

theorem TakenFor.canonical {s : Sign} {n : Nat} {u : UnpackedFloat} (h : TakenFor s n u) :
    Canonical u := by
  cases h with
  | finite n m e hm h => exact h
  | zero | infinity | nan => trivial

/-- The highest bit is the sign. -/
theorem toNat_unpackSign (b : BitVec Format.binary64.numBits) :
    (unpackSign b).toNat = b.toNat / 2 ^ 63 := by
  have hb : b.toNat < 2 ^ 64 := b.isLt
  simp [unpackSign, Nat.shiftRight_eq_div_pow]
  omega

/-- A pattern is taken for what its sign and the other 63 bits say. -/
theorem takenFor_unpack (b : BitVec Format.binary64.numBits) :
    TakenFor (Sign.ofBitVec (unpackSign b)) (b.toNat % 2 ^ 63) (unpack Format.binary64 b) := by
  have hexponent := toNat_unpackExponent b
  have hmantissa := toNat_unpackMantissa b
  have hbias : (Format.binary64.exponentBias : Int) +
    (Format.binary64.mantissaBitsWithoutImplicit : Int) = 1075 := by decide
  -- the bit in front of the fraction
  have hone : (1#1 ++ unpackMantissa b).toNat = 2 ^ 52 + (unpackMantissa b).toNat := by
    rw [BitVec.toNat_append, ← Nat.shiftLeft_add_eq_or_of_lt (unpackMantissa b).isLt]
    rfl
  unfold unpack
  simp only [hbias, hone, hexponent, hmantissa]
  generalize Sign.ofBitVec (unpackSign b) = s
  -- an exponent of ones, of zeros, or any other; in the first two cases zero is a fraction of its own
  split
  · next he =>
    rw [he] at hexponent
    replace hexponent : 2047 = b.toNat / 2 ^ 52 % 2 ^ 11 := hexponent
    split
    · next hm =>
      rw [hm] at hmantissa
      replace hmantissa : 0 = b.toNat % 2 ^ 52 := hmantissa
      have hb : b.toNat % 2 ^ 63 = 2047 * 2 ^ 52 := by omega
      rw [hb]
      exact .infinity
    · next hm =>
      have hpos : b.toNat % 2 ^ 52 ≠ 0 := fun h0 => hm (BitVec.eq_of_toNat_eq (hmantissa.trans h0))
      exact .nan _ (by omega)
  · next he =>
    have hfull : b.toNat / 2 ^ 52 % 2 ^ 11 ≠ 2047 :=
      fun h => he (BitVec.eq_of_toNat_eq (hexponent.trans h))
    split
    · next he0 =>
      rw [he0] at hexponent
      replace hexponent : 0 = b.toNat / 2 ^ 52 % 2 ^ 11 := hexponent
      split
      · next hm =>
        rw [hm] at hmantissa
        replace hmantissa : 0 = b.toNat % 2 ^ 52 := hmantissa
        have hb : b.toNat % 2 ^ 63 = 0 := by omega
        rw [hb]
        exact .zero
      · next hm =>
        refine .finite _ _ _ _ ⟨?_, ?_, ?_, .inr ?_⟩ ?_ <;> omega
    · next he0 =>
      have hpos : b.toNat / 2 ^ 52 % 2 ^ 11 ≠ 0 :=
        fun h => he0 (BitVec.eq_of_toNat_eq (hexponent.trans h))
      refine .finite _ _ _ _ ⟨?_, ?_, ?_, .inl ?_⟩ ?_ <;> omega

theorem TakenFor.bounds {s : Sign} {m : Nat} {e : Int} {hm : 0 < m}
    (h : Canonical (.finite s m e hm)) :
    0 < (e + 1074).toNat * 2 ^ 52 + m ∧ (e + 1074).toNat * 2 ^ 52 + m < 2047 * 2 ^ 52 := by
  obtain ⟨hlt, hlow, hhigh, -⟩ := h
  omega

/-- A sign and the other bits are taken for one number only. -/
theorem TakenFor.unique {s : Sign} {n : Nat} {u u' : UnpackedFloat} (h : TakenFor s n u)
    (h' : TakenFor s n u') : u = u' := by
  cases h with
  | zero =>
    cases h' with
    | zero => rfl
    | finite _ m e hm hc hn => exact absurd hn (Nat.ne_of_lt (bounds hc).1)
    | nan _ hn => omega
  | infinity =>
    cases h' with
    | infinity => rfl
    | finite _ m e hm hc hn => exact absurd hn.symm (Nat.ne_of_lt (bounds hc).2)
    | nan _ hn => omega
  | nan _ hn =>
    cases h' with
    | nan => rfl
    | zero => omega
    | infinity => omega
    | finite _ m e hm hc hn' => exact absurd (bounds hc).2 (by omega)
  | finite _ m e hm hc hn =>
    cases h' with
    | zero => exact absurd hn (Nat.ne_of_lt (bounds hc).1)
    | infinity => exact absurd hn.symm (Nat.ne_of_lt (bounds hc).2)
    | nan _ hn' => exact absurd (bounds hc).2 (by omega)
    | finite _ m' e' hm' hc' hn' =>
      obtain ⟨hlt, hlow, hhigh, hfull⟩ := hc
      obtain ⟨hlt', hlow', hhigh', hfull'⟩ := hc'
      obtain rfl : e = e' := by omega
      obtain rfl : m = m' := by omega
      rfl

/-- Exponent and fraction make up the magnitude, in this order. -/
theorem toNat_packComponents (s : Sign) (e : BitVec Format.binary64.exponentBits)
    (m : BitVec Format.binary64.mantissaBitsWithoutImplicit) :
    (packComponents Format.binary64 s e m).toNat % 2 ^ 63 = e.toNat * 2 ^ 52 + m.toNat := by
  have hexponent := toNat_unpackExponent (packComponents Format.binary64 s e m)
  have hmantissa := toNat_unpackMantissa (packComponents Format.binary64 s e m)
  rw [unpackExponent_packComponents] at hexponent
  rw [unpackMantissa_packComponents] at hmantissa
  omega

/-- A number is read as it is written. -/
theorem unpack_pack {u : UnpackedFloat} (h : Canonical u) :
    unpack Format.binary64 (pack Format.binary64 u) = u := by
  cases u with
  | notANumber => rfl
  | infinity s => cases s <;> rfl
  | zero s => cases s <;> rfl
  | finite s m e hm =>
    have hbits := takenFor_unpack (pack Format.binary64 (.finite s m e hm))
    have ⟨hlt, hlow, hhigh, hfull⟩ := h
    have hlog : m.log2 + 1 = Format.binary64.mantissaBits ↔ 2 ^ 52 ≤ m := by
      rw [← Nat.le_log2 (Nat.pos_iff_ne_zero.mp hm)]
      have hbound : m.log2 < 53 := (Nat.log2_lt (Nat.pos_iff_ne_zero.mp hm)).mpr hlt
      show m.log2 + 1 = 53 ↔ _
      omega
    have hsmall : ¬2 ^ Format.binary64.exponentBits ≤ (e + Format.binary64.exponentBias +
        Format.binary64.mantissaBitsWithoutImplicit).toNat + 1 := by
      show ¬2048 ≤ (e + 1023 + 52).toNat + 1
      omega
    have hpack : ∃ e' m', pack Format.binary64 (.finite s m e hm) =
        packComponents Format.binary64 s e' m' ∧
        e'.toNat * 2 ^ 52 + m'.toNat = (e + 1074).toNat * 2 ^ 52 + m := by
      rw [pack]
      simp only [if_neg hsmall, hlog]
      split
      · refine ⟨_, _, rfl, ?_⟩
        rw [BitVec.toNat_ofNat, BitVec.toNat_ofNat]
        show (e + 1023 + 52).toNat % 2048 * 2 ^ 52 + m % 2 ^ 52 = _
        omega
      · refine ⟨_, _, rfl, ?_⟩
        rw [BitVec.toNat_ofNat, BitVec.toNat_ofNat]
        show 0 % 2048 * 2 ^ 52 + m % 2 ^ 52 = _
        omega
    obtain ⟨e', m', hpack, hn⟩ := hpack
    rw [hpack, toNat_packComponents, unpackSign_packComponents, Sign.ofBitVec_toBitVec] at hbits
    rw [hpack]
    exact hbits.unique (.finite _ _ _ _ h hn)

/-! ## Sign and magnitude -/

/-- The bits of a number but for its sign. -/
def magnitude (x : Double) : Nat := x.bits.toNat % 2 ^ 63

/-- The sign bit of a number. -/
def sign (x : Double) : Sign := if x.isNegative then .negative else .positive

/-- Where a number stands, with zero for both zeros. -/
def rank (x : Double) : Int := x.sign.apply x.magnitude

theorem isNegative_iff {x : Double} : x.isNegative = true ↔ 2 ^ 63 ≤ x.bits.toNat := by
  have hbits : x.bits.toNat < 2 ^ 64 := x.bits.toNat_lt
  rw [isNegative, bne_iff_ne, Ne, ← UInt64.toNat_inj, toNat_and_signMask, UInt64.toNat_zero]
  omega

theorem sign_eq (x : Double) :
    x.sign = Sign.ofBitVec (@unpackSign Format.binary64 x.bits.toBitVec) := by
  have hbits : x.bits.toNat < 2 ^ 64 := x.bits.toNat_lt
  have hsign : (@unpackSign Format.binary64 x.bits.toBitVec).toNat =
      x.bits.toNat / 2 ^ 63 := toNat_unpackSign _
  by_cases h : x.isNegative = true
  · have hset := isNegative_iff.mp h
    rw [sign, if_pos h, Sign.ofBitVec, if_neg]
    intro hzero
    rw [hzero] at hsign
    replace hsign : 0 = x.bits.toNat / 2 ^ 63 := hsign
    omega
  · have hclear := mt isNegative_iff.mpr h
    rw [sign, if_neg h, Sign.ofBitVec, if_pos]
    refine BitVec.eq_of_toNat_eq (hsign.trans ?_)
    show x.bits.toNat / 2 ^ 63 = 0
    omega

theorem opened_eq_unpack (x : Double) : x.opened = unpack Format.binary64 x.bits.toBitVec :=
  unpack_pack (takenFor_unpack _).canonical

/-- Sign and magnitude determine what a number is. -/
theorem takenFor_opened (x : Double) : TakenFor x.sign x.magnitude x.opened := by
  rw [opened_eq_unpack, sign_eq]
  exact takenFor_unpack _

theorem canonical_opened (x : Double) : Canonical x.opened := x.takenFor_opened.canonical

/-- What is written is taken apart again. -/
theorem opened_written {u : UnpackedFloat} (h : Canonical u) : (written u).opened = u :=
  (congrArg (fun v => unpack Format.binary64 (pack Format.binary64 v)) (unpack_pack h)).trans
    (unpack_pack h)

/-- Finite magnitudes come before all others. -/
theorem isFinite_iff_magnitude {x : Double} : x.isFinite = true ↔ x.magnitude < 2047 * 2 ^ 52 := by
  have hmask : exponentMask.toNat = 2047 * 2 ^ 52 := by decide
  rw [isFinite, bne_iff_ne, Ne, ← UInt64.toNat_inj, toNat_and_exponentMask, hmask, magnitude]
  omega

/-- A finite number is taken for one of its sign. -/
theorem isFinite_iff_kind {x : Double} : x.isFinite = true ↔ x.kind = .finite x.sign := by
  rw [isFinite_iff_magnitude, kind]
  have h := takenFor_opened x
  generalize x.magnitude = n, x.opened = u at h
  cases h with
  | zero => simp [kindOf]
  | finite _ m e hm hc hn => simpa [kindOf, hn] using (TakenFor.bounds hc).2
  | infinity => simp [kindOf]
  | nan _ hn => simpa [kindOf] using hn.le

theorem toNat_bits (x : Double) :
    x.bits.toNat = if x.isNegative then 2 ^ 63 + x.magnitude else x.magnitude := by
  have hbits : x.bits.toNat < 2 ^ 64 := x.bits.toNat_lt
  rw [magnitude]
  split
  · next h =>
    have hset := isNegative_iff.mp h
    omega
  · next h =>
    have hclear := mt isNegative_iff.mpr h
    omega

theorem eq_of_toNat_bits {x y : Double} (h : x.bits.toNat = y.bits.toNat) : x = y := by
  cases x
  cases y
  exact congrArg Double.mk (UInt64.toNat_inj.mp h)

/-- There is nothing to a number but its sign and its magnitude. -/
theorem eq_of_sign_magnitude {x y : Double} (hs : x.sign = y.sign) (hm : x.magnitude = y.magnitude) :
    x = y := by
  have hneg : x.isNegative = y.isNegative := by
    rw [sign, sign] at hs
    cases hx : x.isNegative <;> cases hy : y.isNegative <;> simp [hx, hy] at hs ⊢
  exact eq_of_toNat_bits (by rw [toNat_bits, toNat_bits, hneg, hm])

theorem sign_of_kind {x : Double} {s : Sign} (h : x.kind = .finite s) : x.sign = s := by
  have htaken := takenFor_opened x
  rw [kind] at h
  generalize x.magnitude = n, x.opened = u at *
  cases htaken with
  | zero | finite => exact Kind.finite.inj h
  | infinity | nan => cases h

/-- A number that is not NaN is taken for one with its sign and its other bits. -/
theorem TakenFor.inj {s s' : Sign} {n n' : Nat} {u : UnpackedFloat} (h : TakenFor s n u)
    (h' : TakenFor s' n' u) (hu : u ≠ .notANumber) : s = s' ∧ n = n' := by
  cases h with
  | nan => exact absurd rfl hu
  | zero =>
    cases h'
    exact ⟨rfl, rfl⟩
  | infinity =>
    cases h'
    exact ⟨rfl, rfl⟩
  | finite _ m e hm hc hn =>
    cases h' with
    | finite _ _ _ _ hc' hn' => exact ⟨rfl, hn.trans hn'.symm⟩

/-- Numbers that are taken for the same are the same, unless it is NaN. -/
theorem eq_of_opened {x y : Double} (hx : x.kind ≠ .nan) (h : x.opened = y.opened) : x = y := by
  have hsame := (takenFor_opened x).inj (h ▸ takenFor_opened y) fun hnan => hx (congrArg kindOf hnan)
  exact eq_of_sign_magnitude hsame.1 hsame.2

/-! ## Order -/

/-- Of finite numbers the one with the greater exponent is greater, then the one with the greater
mantissa. -/
theorem compare_canonical {s s' : Sign} {m m' : Nat} {e e' : Int} {hm : 0 < m} {hm' : 0 < m'}
    (h : Canonical (.finite s m e hm)) (h' : Canonical (.finite s' m' e' hm')) :
    (compare e e').then (compare m m') =
      compare ((e + 1074).toNat * 2 ^ 52 + m) ((e' + 1074).toNat * 2 ^ 52 + m') := by
  obtain ⟨hlt, hlow, hhigh, hfull⟩ := h
  obtain ⟨hlt', hlow', hhigh', hfull'⟩ := h'
  rcases lt_trichotomy e e' with he | rfl | he
  · have hn : (e + 1074).toNat * 2 ^ 52 + m < (e' + 1074).toNat * 2 ^ 52 + m' := by omega
    rw [Int.compare_eq_lt.mpr he, Nat.compare_eq_lt.mpr hn]
    rfl
  · rw [Std.compare_self, Ordering.eq_then]
    simp only [Nat.compare_eq_ite_lt, Nat.add_lt_add_iff_left]
  · have hn : (e' + 1074).toNat * 2 ^ 52 + m' < (e + 1074).toNat * 2 ^ 52 + m := by omega
    rw [Int.compare_eq_gt.mpr he, Nat.compare_eq_gt.mpr hn]
    rfl

theorem compare_natCast (m n : Nat) : compare (m : Int) n = compare m n := by
  rcases lt_trichotomy m n with h | rfl | h
  · rw [Nat.compare_eq_lt.mpr h, Int.compare_eq_lt.mpr (by omega)]
  · rw [Std.compare_self, Std.compare_self]
  · rw [Nat.compare_eq_gt.mpr h, Int.compare_eq_gt.mpr (by omega)]

theorem compare_neg (m n : Int) : compare (-m) (-n) = (compare m n).swap := by
  rcases lt_trichotomy m n with h | rfl | h
  · rw [Int.compare_eq_lt.mpr h, Int.compare_eq_gt.mpr (by omega)]
    rfl
  · rw [Std.compare_self, Std.compare_self]
    rfl
  · rw [Int.compare_eq_gt.mpr h, Int.compare_eq_lt.mpr (by omega)]
    rfl

/-- A finite number is compared with others as its magnitude with its sign. -/
theorem compare_finite {s s' : Sign} {m n' : Nat} {e : Int} {hm : 0 < m} {u' : UnpackedFloat}
    (h : Canonical (.finite s m e hm)) (h' : TakenFor s' n' u') (hu' : u' ≠ .notANumber) :
    UnpackedFloat.compare (.finite s m e hm) u' =
      some (compare (s.apply ((e + 1074).toNat * 2 ^ 52 + m : Nat)) (s'.apply n')) := by
  have hbounds := TakenFor.bounds h
  cases h' with
  | nan => exact absurd rfl hu'
  | zero =>
    cases s with
    | positive =>
      have hgt : (s'.apply 0) < ((e + 1074).toNat * 2 ^ 52 + m : Nat) := by
        cases s' <;> simp only [Sign.apply] <;> omega
      exact congrArg some (Int.compare_eq_gt.mpr hgt).symm
    | negative =>
      have hlt : -((e + 1074).toNat * 2 ^ 52 + m : Nat) < s'.apply 0 := by
        cases s' <;> simp only [Sign.apply] <;> omega
      exact congrArg some (Int.compare_eq_lt.mpr hlt).symm
  | infinity =>
    cases s' with
    | positive =>
      have hlt : s.apply ((e + 1074).toNat * 2 ^ 52 + m : Nat) < 2047 * 2 ^ 52 := by
        cases s <;> simp only [Sign.apply] <;> omega
      cases s <;> exact congrArg some (Int.compare_eq_lt.mpr hlt).symm
    | negative =>
      have hgt : -(2047 * 2 ^ 52) < s.apply ((e + 1074).toNat * 2 ^ 52 + m : Nat) := by
        cases s <;> simp only [Sign.apply] <;> omega
      cases s <;> exact congrArg some (Int.compare_eq_gt.mpr hgt).symm
  | finite _ m' e' hm' hc' hn' =>
    subst hn'
    cases s <;> cases s'
    · rw [UnpackedFloat.compare, compare_canonical h hc', ← compare_natCast]
      exact congrArg some (compare_neg _ _).symm
    · exact congrArg some (Int.compare_eq_lt.mpr (by simp only [Sign.apply]; omega)).symm
    · exact congrArg some (Int.compare_eq_gt.mpr (by simp only [Sign.apply]; omega)).symm
    · rw [UnpackedFloat.compare, compare_canonical h hc', ← compare_natCast]
      rfl

/-- Numbers are compared as their magnitudes with their signs. -/
theorem TakenFor.compare {s s' : Sign} {n n' : Nat} {u u' : UnpackedFloat} (h : TakenFor s n u)
    (h' : TakenFor s' n' u') (hu : u ≠ .notANumber) (hu' : u' ≠ .notANumber) :
    u.compare u' = some (Ord.compare (s.apply n) (s'.apply n')) := by
  cases h with
  | nan => exact absurd rfl hu
  | finite _ m e hm hc hn => exact hn ▸ compare_finite hc h' hu'
  | zero =>
    cases h' with
    | nan => exact absurd rfl hu'
    | zero | infinity => cases s <;> cases s' <;> rfl
    | finite _ m e hm hc hn =>
      rw [compare_swap, compare_finite hc .zero nofun, ← hn, Option.map_some,
        ← Std.OrientedCmp.eq_swap]
  | infinity =>
    cases h' with
    | nan => exact absurd rfl hu'
    | zero | infinity => cases s <;> cases s' <;> rfl
    | finite _ m e hm hc hn =>
      rw [compare_swap, compare_finite hc .infinity nofun, ← hn, Option.map_some,
        ← Std.OrientedCmp.eq_swap]

theorem opened_ne_notANumber {x : Double} (h : x.kind ≠ .nan) : x.opened ≠ .notANumber :=
  fun hx => h (congrArg kindOf hx)

/-- Of two numbers that are not NaN the one that stands first is less. -/
theorem lt_iff_rank_lt {x y : Double} (hx : x.kind ≠ .nan) (hy : y.kind ≠ .nan) :
    x < y ↔ x.rank < y.rank := by
  rw [lt_iff, (takenFor_opened x).compare (takenFor_opened y) (opened_ne_notANumber hx)
    (opened_ne_notANumber hy), Option.some.injEq, Int.compare_eq_lt]
  rfl

/-- Nothing is below a NaN. -/
theorem not_nan_of_gt {x y : Double} (h : x < y) : y.kind ≠ .nan := by
  intro hy
  rw [lt_iff, opened_eq_notANumber hy] at h
  cases hx : x.opened <;> rw [hx] at h <;> cases h

/-- A number is below zero if its rank is; both zeros have rank zero. -/
theorem lt_zero_iff {x : Double} (hx : x.kind ≠ .nan) : x < 0 ↔ x.rank < 0 :=
  lt_iff_rank_lt hx notBelowZero_zero.not_nan

theorem zero_lt_iff {x : Double} (hx : x.kind ≠ .nan) : 0 < x ↔ 0 < x.rank :=
  lt_iff_rank_lt notBelowZero_zero.not_nan hx

/-! ## The order of all patterns -/

theorem magnitude_lt (x : Double) : x.magnitude < 2 ^ 63 := Nat.mod_lt _ (Nat.two_pow_pos _)

/-- Negative patterns come in reverse before the positive ones. -/
theorem toNat_orderKey (x : Double) : x.orderKey.toNat =
    if x.isNegative then 2 ^ 63 - 1 - x.magnitude else 2 ^ 63 + x.magnitude := by
  have hbits : x.bits.toNat < 2 ^ 64 := x.bits.toNat_lt
  rw [orderKey, magnitude]
  split
  · next h =>
    have hset := isNegative_iff.mp h
    rw [UInt64.toNat_not]
    show 2 ^ 64 - 1 - x.bits.toNat = _
    omega
  · next h =>
    have hclear := mt isNegative_iff.mpr h
    have hmask : signMask.toNat = 2 ^ 63 := by decide
    have hor := Nat.two_pow_add_eq_or_of_lt (Nat.lt_of_not_le hclear) 1
    rw [UInt64.toNat_or, hmask, Nat.or_comm, Nat.mod_eq_of_lt (by omega)]
    simpa using hor.symm

/-- The order of all patterns keeps the order of numbers. -/
theorem totalOrder_of_lt {x y : Double} (h : x < y) : totalOrder x y = .lt := by
  have hrank := (lt_iff_rank_lt (not_nan_of_lt h) (not_nan_of_gt h)).mp h
  have hx := x.magnitude_lt
  have hy := y.magnitude_lt
  rw [rank, rank, sign, sign] at hrank
  -- the keys below zero run backwards from the middle, the others forwards from it
  rw [totalOrder, Std.compare_eq_lt, UInt64.lt_iff_toNat_lt, toNat_orderKey, toNat_orderKey]
  cases hsx : x.isNegative <;> cases hsy : y.isNegative
  all_goals
    simp only [hsx, hsy, Sign.apply, if_true, if_false, Bool.false_eq_true] at hrank ⊢
    omega

/-- Numbers that stand at the same place in the order of all patterns are the same. -/
theorem totalOrder_eq_iff {x y : Double} : totalOrder x y = .eq ↔ x = y := by
  refine ⟨fun h => ?_, fun h => h ▸ Std.compare_self⟩
  have hkey : x.orderKey.toNat = y.orderKey.toNat :=
    congrArg UInt64.toNat (Std.compare_eq_iff_eq.mp h)
  have hx := x.magnitude_lt
  have hy := y.magnitude_lt
  have hbits := toNat_bits x
  have hbits' := toNat_bits y
  refine eq_of_toNat_bits ?_
  rw [toNat_orderKey, toNat_orderKey] at hkey
  rw [hbits, hbits']
  cases hsx : x.isNegative <;> cases hsy : y.isNegative
  all_goals
    simp only [hsx, hsy, if_true, if_false, Bool.false_eq_true] at hkey ⊢
    omega

/-- The order of patterns is transitive, the patterns of NaNs included. -/
theorem totalOrder_trans {x y z : Double} (h : totalOrder x y = .lt) (h' : totalOrder y z = .lt) :
    totalOrder x z = .lt := by
  rw [totalOrder, Std.compare_eq_lt] at *
  exact UInt64.lt_trans h h'

/-- It can be reversed. -/
theorem totalOrder_swap (x y : Double) : totalOrder y x = (totalOrder x y).swap :=
  Std.OrientedOrd.eq_swap (a := y.orderKey) (b := x.orderKey)

/-! ## Without the sign and with the other sign -/

@[simp] theorem magnitude_abs (x : Double) : x.abs.magnitude = x.magnitude := by
  rw [magnitude, abs, toNat_and_not_signMask, Nat.mod_mod, magnitude]

theorem sign_abs (x : Double) : x.abs.sign = .positive := by
  rw [sign, if_neg]
  rw [isNegative_iff, abs, toNat_and_not_signMask]
  omega

/-- Without the sign, the rank is the magnitude. -/
theorem rank_abs (x : Double) : x.abs.rank = x.magnitude := by
  rw [rank, sign_abs, magnitude_abs]
  rfl

/-- The magnitudes behind that of infinity are those of NaNs. -/
theorem kind_nan_iff_magnitude {x : Double} : x.kind = .nan ↔ 2047 * 2 ^ 52 < x.magnitude := by
  rw [kind_nan_iff, magnitude]
  omega

theorem isZero_iff {x : Double} : x.isZero = true ↔ x.magnitude = 0 := by
  rw [isZero, beq_iff_eq, ← UInt64.toNat_inj, abs, toNat_and_not_signMask]
  rfl

/-- Numbers are compared by magnitude once their signs are gone. -/
theorem abs_lt_abs_iff {x y : Double} (hx : x.kind ≠ .nan) (hy : y.kind ≠ .nan) :
    x.abs < y.abs ↔ x.magnitude < y.magnitude := by
  have habs : ∀ z : Double, z.kind ≠ .nan → z.abs.kind ≠ .nan := by
    intro z hz
    rwa [Ne, kind_nan_iff_magnitude, magnitude_abs, ← kind_nan_iff_magnitude]
  rw [lt_iff_rank_lt (habs x hx) (habs y hy), rank_abs, rank_abs, Int.ofNat_lt]

@[simp] theorem magnitude_neg (x : Double) : (-x).magnitude = x.magnitude := by
  show (x.bits ^^^ signMask).toNat % 2 ^ 63 = x.bits.toNat % 2 ^ 63
  have hmask : signMask.toNat = 2 ^ 63 := by decide
  rw [UInt64.toNat_xor, hmask, Nat.xor_mod_two_pow, Nat.mod_self, Nat.xor_zero]

theorem abs_neg (x : Double) : (-x).abs = x.abs := by
  refine congrArg Double.mk (UInt64.toNat_inj.mp ?_)
  rw [toNat_and_not_signMask, toNat_and_not_signMask]
  exact magnitude_neg x

theorem isNegative_neg (x : Double) : (-x).isNegative = !x.isNegative := by
  have hmask : signMask.toNat = 2 ^ 63 := by decide
  have hbits : x.bits.toNat < 2 ^ 64 := x.bits.toNat_lt
  have htop : (-x).bits.toNat / 2 ^ 63 = (x.bits.toNat / 2 ^ 63) ^^^ 1 := by
    show (x.bits ^^^ signMask).toNat / 2 ^ 63 = _
    rw [UInt64.toNat_xor, hmask, Nat.xor_div_two_pow, Nat.div_self (Nat.two_pow_pos _)]
  have hone : ∀ n, n < 2 → n ^^^ 1 = 1 - n := by decide
  rw [hone _ (by omega)] at htop
  rw [Bool.eq_iff_iff, Bool.not_eq_true', ← Bool.not_eq_true, isNegative_iff, isNegative_iff]
  omega

/-- Another sign turns the rank around. -/
theorem rank_neg (x : Double) : (-x).rank = -x.rank := by
  rw [rank, rank, magnitude_neg, sign, sign, isNegative_neg]
  cases x.isNegative <;> simp [Sign.apply]

theorem kind_neg_ne_nan {x : Double} (h : x.kind ≠ .nan) : (-x).kind ≠ .nan := by
  rwa [Ne, kind_nan_iff_magnitude, magnitude_neg, ← kind_nan_iff_magnitude]

theorem neg_neg (x : Double) : - -x = x := by
  refine congrArg Double.mk ?_
  show x.bits ^^^ signMask ^^^ signMask = x.bits
  rw [UInt64.xor_assoc, UInt64.xor_self, UInt64.xor_zero]

end SignHash.Double
