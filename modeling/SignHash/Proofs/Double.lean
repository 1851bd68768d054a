import Mathlib
import SignHash.Double

/-!
# Kinds of binary64 numbers

Whether a number is NaN, infinite or finite, and which sign it has, follows from the kinds of what it
is computed from in the cases that matter here: squares and sums of squares are not below zero, and
nothing that has met a NaN is anything else. Of two numbers that are not NaN one is at most the other.
-/

namespace SignHash.Double

open Float.Model (UnpackedFloat Format)
open Float.Model.UnpackedFloat

/-! ## Kinds -/

/-- What a number is, but for its size. -/
inductive Kind where
  | nan
  | infinite (s : Sign)
  | finite (s : Sign)

/-- The kind of a number that arithmetic has taken apart. -/
def kindOf : UnpackedFloat → Kind
  | .notANumber => .nan
  | .infinity s => .infinite s
  | .zero s => .finite s
  | .finite s _ _ _ => .finite s

/-- What arithmetic takes a number for. -/
def opened (x : Double) : UnpackedFloat := x.toFloat.toModel.unpack

/-- The kind of a number. -/
def kind (x : Double) : Kind := kindOf x.opened

/-- A number of a kind is written as one of the other: it is the same, or too large. -/
def Kind.WrittenAs (k k' : Kind) : Prop := k' = k ∨ ∃ s, k = .finite s ∧ k' = .infinite s

theorem Kind.WrittenAs.trans {k k' k'' : Kind} (h : k.WrittenAs k') (h' : k'.WrittenAs k'') :
    k.WrittenAs k'' := by
  rcases h with rfl | ⟨s, rfl, rfl⟩
  · exact h'
  · rcases h' with rfl | ⟨s', hs, -⟩
    · exact .inr ⟨s, rfl, rfl⟩
    · cases hs

/-- Writing makes no NaN, and loses none. -/
theorem Kind.WrittenAs.nan_iff {k k' : Kind} (h : k.WrittenAs k') : k' = .nan ↔ k = .nan := by
  rcases h with rfl | ⟨s, rfl, rfl⟩
  · exact Iff.rfl
  · simp

/-! ## Patterns -/

/-- All exponent bits set make an infinity or a NaN, and all other patterns are finite. -/
theorem kindOf_unpack (b : BitVec Format.binary64.numBits) :
    kindOf (unpack Format.binary64 b) =
      if unpackExponent b = -1#_ then
        if unpackMantissa b = 0#_ then .infinite (Sign.ofBitVec (unpackSign b)) else .nan
      else .finite (Sign.ofBitVec (unpackSign b)) := by
  unfold unpack
  simp only
  split
  · split <;> rfl
  · split
    · split <;> rfl
    · rfl

theorem kindOf_unpack_packComponents (s : Sign) {e : BitVec Format.binary64.exponentBits}
    (m : BitVec Format.binary64.mantissaBitsWithoutImplicit) (he : e ≠ -1#_) :
    kindOf (unpack Format.binary64 (packComponents Format.binary64 s e m)) = .finite s := by
  rw [kindOf_unpack, unpackExponent_packComponents, if_neg he, unpackSign_packComponents,
    Sign.ofBitVec_toBitVec]

theorem kindOf_unpack_packedInfinity (s : Sign) :
    kindOf (unpack Format.binary64 (packedInfinity Format.binary64 s)) = .infinite s := by
  rw [kindOf_unpack, packedInfinity, unpackExponent_packComponents, if_pos rfl,
    unpackMantissa_packComponents, unpackSign_packComponents, Sign.ofBitVec_toBitVec]
  exact if_pos rfl

/-- Writing a number changes its kind only if it is too large. -/
theorem kindOf_unpack_pack (u : UnpackedFloat) :
    (kindOf u).WrittenAs (kindOf (unpack Format.binary64 (pack Format.binary64 u))) := by
  cases u with
  | notANumber => exact .inl rfl
  | infinity s => exact .inl (kindOf_unpack_packedInfinity s)
  | zero s => exact .inl (kindOf_unpack_packComponents s 0 (by decide))
  | finite s m e hm =>
    rw [pack]
    simp only
    split
    · exact .inr ⟨s, rfl, kindOf_unpack_packedInfinity s⟩
    · next hsmall =>
      split
      · refine .inl (kindOf_unpack_packComponents s _ fun he => ?_)
        have hexponent := congrArg BitVec.toNat he
        rw [BitVec.toNat_ofNat, Nat.mod_eq_of_lt (by omega)] at hexponent
        have hall : (-1#(Format.binary64.exponentBits)).toNat = 2047 := by decide
        rw [hall] at hexponent
        have hpow : 2 ^ Format.binary64.exponentBits = 2048 := by decide
        rw [hpow] at hsmall
        omega
      · exact .inl (kindOf_unpack_packComponents s _ (by decide))

/-- The number that arithmetic writes, by what it has computed. -/
def written (u : UnpackedFloat) : Double := ofFloat (.ofModel (.pack u))

/-- Writing keeps the kind, unless a finite number is too large to be written. -/
theorem kind_written (u : UnpackedFloat) : (kindOf u).WrittenAs (kind (written u)) :=
  ((kindOf_unpack_pack u).trans (kindOf_unpack_pack _))

/-- Addition opens both patterns, adds, and writes the result down; so do the others. -/
theorem add_eq_written (x y : Double) :
    x + y = written (UnpackedFloat.add Format.binary64 x.opened y.opened) := rfl

theorem sub_eq_written (x y : Double) :
    x - y = written (UnpackedFloat.sub Format.binary64 x.opened y.opened) := rfl

theorem mul_eq_written (x y : Double) :
    x * y = written (UnpackedFloat.mul Format.binary64 x.opened y.opened) := rfl

theorem sqrt_eq_written (x : Double) :
    SignHash.sqrt x = written (UnpackedFloat.sqrt Format.binary64 x.opened) := rfl

/-! ## Arithmetic -/

/-- Before it is written, what is rounded is finite with the sign that it had. -/
theorem kindOf_roundWithAccuracy (spec : Format) (s : Sign) (m : Nat) (e : Int) (a : Accuracy) :
    kindOf (roundWithAccuracy spec s m e a) = .finite s := by
  unfold roundWithAccuracy
  simp only
  split <;> rfl

theorem exists_kindOf_normalize (spec : Format) (m : Int) (e : Int) (s : Sign) :
    ∃ s', kindOf (UnpackedFloat.normalize spec m e s) = .finite s' := by
  unfold UnpackedFloat.normalize
  split
  · exact ⟨_, kindOf_roundWithAccuracy _ _ _ _ _⟩
  · exact ⟨s, rfl⟩
  · exact ⟨_, kindOf_roundWithAccuracy _ _ _ _ _⟩

/-- A sum above zero is positive. -/
theorem kindOf_normalize_pos (spec : Format) {m : Int} (hm : 0 < m) (e : Int) (s : Sign) :
    kindOf (UnpackedFloat.normalize spec m e s) = .finite .positive := by
  have hcompare : compare m 0 = .gt := Std.compare_eq_gt.mpr hm
  rw [UnpackedFloat.normalize, hcompare]
  exact kindOf_roundWithAccuracy _ _ _ _ _

theorem opened_eq_notANumber {x : Double} (h : x.kind = .nan) : x.opened = .notANumber := by
  rw [kind] at h
  cases hx : x.opened with
  | notANumber => rfl
  | infinity | zero | finite => rw [hx] at h; cases h

theorem opened_of_finite {x : Double} {s : Sign} (h : x.kind = .finite s) :
    x.opened = .zero s ∨ ∃ m e hm, x.opened = .finite s m e hm := by
  rw [kind] at h
  cases hx : x.opened with
  | notANumber | infinity => rw [hx] at h; cases h
  | zero =>
    rw [hx] at h
    cases h
    exact .inl rfl
  | finite _ m e hm =>
    rw [hx] at h
    cases h
    exact .inr ⟨m, e, hm, rfl⟩

theorem opened_of_infinite {x : Double} {s : Sign} (h : x.kind = .infinite s) :
    x.opened = .infinity s := by
  rw [kind] at h
  cases hx : x.opened with
  | infinity => rw [hx] at h; cases h; rfl
  | notANumber | zero | finite => rw [hx] at h; cases h

/-- A number is not below zero: it is positive, or the zero that counts as positive. -/
def NotBelowZero (x : Double) : Prop := x.kind = .finite .positive ∨ x.kind = .infinite .positive

/-- A NaN is on neither side of zero. -/
theorem NotBelowZero.not_nan {x : Double} (h : x.NotBelowZero) : x.kind ≠ .nan := by
  rcases h with h | h <;> simp [h]

/-- Overflow leads to infinity on the same side of zero. -/
theorem notBelowZero_written {u : UnpackedFloat}
    (h : kindOf u = .finite .positive ∨ kindOf u = .infinite .positive) :
    (written u).NotBelowZero := by
  rcases kind_written u with hkind | ⟨s, hs, hkind⟩
  · rcases h with h | h
    · exact .inl (hkind.trans h)
    · exact .inr (hkind.trans h)
  · rcases h with h | h
    · rw [h] at hs
      cases hs
      exact .inr hkind
    · rw [h] at hs
      cases hs

theorem notBelowZero_zero : (0 : Double).NotBelowZero := .inl rfl

/-- A NaN spreads through sums, products and roots. -/
theorem add_nan {x y : Double} (h : x.kind = .nan ∨ y.kind = .nan) : (x + y).kind = .nan := by
  rw [add_eq_written, (kind_written _).nan_iff]
  rcases h with h | h
  · rw [opened_eq_notANumber h]
    rfl
  · rw [opened_eq_notANumber h]
    cases x.opened <;> rfl

theorem mul_nan {x : Double} (h : x.kind = .nan) : (x * x).kind = .nan := by
  rw [mul_eq_written, (kind_written _).nan_iff, opened_eq_notANumber h]
  rfl

theorem sqrt_nan {x : Double} (h : x.kind = .nan) : (SignHash.sqrt x).kind = .nan := by
  rw [sqrt_eq_written, (kind_written _).nan_iff, opened_eq_notANumber h]
  rfl

/-- Taking a finite number away makes a NaN only of a NaN. -/
theorem sub_nan_iff {x y : Double} {s : Sign} (hy : y.kind = .finite s) :
    (x - y).kind = .nan ↔ x.kind = .nan := by
  rw [sub_eq_written, (kind_written _).nan_iff, kind]
  rcases opened_of_finite hy with hv | ⟨m', e', hm', hv⟩
  · rw [hv]
    cases x.opened with
    | zero sx =>
      rw [UnpackedFloat.sub]
      split <;> simp [kindOf]
    | notANumber | infinity | finite => simp [UnpackedFloat.sub, kindOf]
  · rw [hv]
    cases x.opened with
    | finite sx m e hm =>
      obtain ⟨s', hs'⟩ := exists_kindOf_normalize Format.binary64
        (sx.apply (decreaseExponent m e (min e e')).1 - s.apply (decreaseExponent m' e' (min e e')).1)
        (min e e') .positive
      rw [UnpackedFloat.sub]
      simp only [hs']
      simp [kindOf]
    | notANumber | infinity | zero => simp [UnpackedFloat.sub, kindOf]

/-- The square of a number is not below zero. -/
theorem notBelowZero_mul_self {x : Double} (h : x.kind ≠ .nan) : (x * x).NotBelowZero := by
  rw [mul_eq_written]
  have hsign : ∀ s : Sign, s * s = .positive := by
    intro s
    cases s <;> rfl
  refine notBelowZero_written ?_
  rw [kind] at h
  cases hx : x.opened with
  | notANumber => rw [hx] at h; exact absurd rfl h
  | infinity s => exact .inr (congrArg Kind.infinite (hsign s))
  | zero s => exact .inl (congrArg Kind.finite (hsign s))
  | finite s m e hm =>
    refine .inl ?_
    rw [UnpackedFloat.mul, kindOf_roundWithAccuracy, hsign]

theorem decreaseExponent_pos {m : Nat} (hm : 0 < m) (e e' : Int) : 0 < (decreaseExponent m e e').1 := by
  rw [decreaseExponent, Nat.shiftLeft_eq]
  exact Nat.mul_pos hm (Nat.two_pow_pos _)

theorem NotBelowZero.opened {x : Double} (h : x.NotBelowZero) :
    x.opened = .infinity .positive ∨ x.opened = .zero .positive ∨
      ∃ m e hm, x.opened = .finite .positive m e hm := by
  rcases h with h | h
  · exact .inr (opened_of_finite h)
  · exact .inl (opened_of_infinite h)

/-- The sum of numbers that are not below zero is not below zero. -/
theorem NotBelowZero.add {x y : Double} (hx : x.NotBelowZero) (hy : y.NotBelowZero) :
    (x + y).NotBelowZero := by
  rw [add_eq_written]
  refine notBelowZero_written ?_
  rcases hx.opened with hu | hu | ⟨m, e, hm, hu⟩
  · rw [hu]
    rcases hy.opened with hv | hv | ⟨m', e', hm', hv⟩ <;> rw [hv] <;> exact .inr rfl
  · rw [hu]
    rcases hy.opened with hv | hv | ⟨m', e', hm', hv⟩ <;> rw [hv]
    · exact .inr rfl
    · exact .inl rfl
    · exact .inl rfl
  · rw [hu]
    rcases hy.opened with hv | hv | ⟨m', e', hm', hv⟩ <;> rw [hv]
    · exact .inr rfl
    · exact .inl rfl
    · have hpos := decreaseExponent_pos hm e (min e e')
      have hpos' := decreaseExponent_pos hm' e' (min e e')
      refine .inl (kindOf_normalize_pos _ ?_ _ _)
      show (0 : Int) < ((decreaseExponent m e (min e e')).1 : Int) +
        ((decreaseExponent m' e' (min e e')).1 : Int)
      omega

/-- Only a number below zero, or a NaN, has no root. -/
theorem sqrt_not_nan {x : Double} (h : x.NotBelowZero) : (SignHash.sqrt x).kind ≠ .nan := by
  rw [sqrt_eq_written, Ne, (kind_written _).nan_iff]
  rcases h.opened with hx | hx | ⟨m, e, hm, hx⟩
  · rw [hx]
    simp [UnpackedFloat.sqrt, kindOf]
  · rw [hx]
    simp [UnpackedFloat.sqrt, kindOf]
  · rw [hx, UnpackedFloat.sqrt, kindOf_roundWithAccuracy]
    simp

/-! ## Comparison -/

theorem compare_swap (u v : UnpackedFloat) : v.compare u = (u.compare v).map Ordering.swap := by
  have hthen : ∀ (e e' : Int) (m m' : Nat), (compare e' e).then (compare m' m) =
      ((compare e e').then (compare m m')).swap := by
    intro e e' m m'
    rw [Ordering.swap_then, ← Std.OrientedCmp.eq_swap, ← Std.OrientedCmp.eq_swap]
  cases u with
  | notANumber => cases v <;> rfl
  | infinity s =>
    cases v with
    | notANumber => rfl
    | infinity s' => cases s <;> cases s' <;> rfl
    | zero s' => cases s <;> cases s' <;> rfl
    | finite s' => cases s <;> cases s' <;> rfl
  | zero s =>
    cases v with
    | notANumber => rfl
    | infinity s' => cases s <;> cases s' <;> rfl
    | zero s' => rfl
    | finite s' => cases s <;> cases s' <;> rfl
  | finite s m e hm =>
    cases v with
    | notANumber => rfl
    | infinity s' => cases s <;> cases s' <;> rfl
    | zero s' => cases s <;> cases s' <;> rfl
    | finite s' m' e' hm' =>
      cases s <;> cases s' <;> simp [UnpackedFloat.compare, hthen e e' m m']

/-- Only a NaN cannot be compared. -/
theorem exists_compare {u v : UnpackedFloat} (hu : kindOf u ≠ .nan) (hv : kindOf v ≠ .nan) :
    ∃ o, u.compare v = some o := by
  cases u with
  | notANumber => exact absurd rfl hu
  | infinity s =>
    cases v with
    | notANumber => exact absurd rfl hv
    | infinity | zero | finite => cases s <;> exact ⟨_, rfl⟩
  | zero s =>
    cases v with
    | notANumber => exact absurd rfl hv
    | infinity s' | zero s' | finite s' => cases s' <;> exact ⟨_, rfl⟩
  | finite s =>
    cases v with
    | notANumber => exact absurd rfl hv
    | infinity s' | zero s' | finite s' => cases s <;> cases s' <;> exact ⟨_, rfl⟩

theorem lt_iff {x y : Double} : x < y ↔ x.opened.compare y.opened = some .lt := by
  show decide (UnpackedFloat.lt x.opened y.opened = true) = true ↔ _
  rw [decide_eq_true_iff, UnpackedFloat.lt, beq_iff_eq]

theorem le_iff {x y : Double} :
    x ≤ y ↔ ∃ o, x.opened.compare y.opened = some o ∧ o.isLE = true := by
  show decide (UnpackedFloat.le x.opened y.opened = true) = true ↔ _
  rw [decide_eq_true_iff, UnpackedFloat.le, Option.any_eq_true]

/-- Of two numbers that are not NaN, one is at most the other. -/
theorem lt_of_not_le {x y : Double} (hx : x.kind ≠ .nan) (hy : y.kind ≠ .nan) (h : ¬x ≤ y) :
    y < x := by
  obtain ⟨o, ho⟩ := exists_compare hx hy
  rw [lt_iff, compare_swap, ho]
  cases o with
  | gt => rfl
  | lt | eq => exact absurd (le_iff.mpr ⟨_, ho, rfl⟩) h

/-- A NaN is not below anything. -/
theorem not_nan_of_lt {x y : Double} (h : x < y) : x.kind ≠ .nan := by
  intro hx
  rw [lt_iff, opened_eq_notANumber hx] at h
  cases h

/-! ## Patterns of the kinds -/

theorem toNat_unpackExponent (b : BitVec Format.binary64.numBits) :
    (unpackExponent b).toNat = b.toNat / 2 ^ 52 % 2 ^ 11 := by
  simp [unpackExponent, Nat.shiftRight_eq_div_pow]

theorem toNat_unpackMantissa (b : BitVec Format.binary64.numBits) :
    (unpackMantissa b).toNat = b.toNat % 2 ^ 52 := by
  simp [unpackMantissa]

/-- A NaN has all exponent bits set, and some bit of the fraction. -/
theorem kindOf_unpack_nan_iff (b : BitVec Format.binary64.numBits) :
    kindOf (unpack Format.binary64 b) = .nan ↔
      b.toNat / 2 ^ 52 % 2 ^ 11 = 2047 ∧ b.toNat % 2 ^ 52 ≠ 0 := by
  have hexponent : unpackExponent b = -1#(Format.binary64.exponentBits) ↔
      b.toNat / 2 ^ 52 % 2 ^ 11 = 2047 := by
    rw [← BitVec.toNat_inj, toNat_unpackExponent]
    exact Iff.rfl
  have hmantissa : unpackMantissa b = 0#(Format.binary64.mantissaBitsWithoutImplicit) ↔
      b.toNat % 2 ^ 52 = 0 := by
    rw [← BitVec.toNat_inj, toNat_unpackMantissa]
    exact Iff.rfl
  rw [kindOf_unpack, ← hexponent, Ne, ← hmantissa]
  split
  · next h =>
    split
    · next h' => simp [h']
    · next h' => simp [h, h']
  · next h => exact ⟨fun hn => (by cases hn), fun hn => absurd hn.1 h⟩

/-- NaNs by their patterns: the exponent is full and the fraction is not empty. -/
theorem kind_nan_iff {x : Double} :
    x.kind = .nan ↔ x.bits.toNat / 2 ^ 52 % 2 ^ 11 = 2047 ∧ x.bits.toNat % 2 ^ 52 ≠ 0 :=
  (kindOf_unpack_pack _).nan_iff.trans (kindOf_unpack_nan_iff x.bits.toBitVec)

theorem toNat_and_not_signMask (bits : UInt64) :
    (bits &&& ~~~signMask).toNat = bits.toNat % 2 ^ 63 := by
  rw [UInt64.toNat_and]
  exact Nat.and_two_pow_sub_one_eq_mod bits.toNat 63

theorem toNat_and_exponentMask (bits : UInt64) :
    (bits &&& exponentMask).toNat = bits.toNat / 2 ^ 52 % 2 ^ 11 * 2 ^ 52 := by
  have hmask : exponentMask.toNat = (2 ^ 11 - 1) <<< 52 := by decide
  rw [UInt64.toNat_and, hmask, ← Nat.shiftLeft_eq, ← Nat.shiftRight_eq_div_pow]
  refine Nat.eq_of_testBit_eq fun i => ?_
  rw [Nat.testBit_and, Nat.testBit_shiftLeft, Nat.testBit_shiftLeft, Nat.testBit_two_pow_sub_one,
    Nat.testBit_mod_two_pow, Nat.testBit_shiftRight]
  by_cases hi : 52 ≤ i
  · have hplace : 52 + (i - 52) = i := by omega
    rw [hplace]
    simp [hi, Bool.and_comm]
  · simp [hi]

theorem toNat_and_signMask (bits : UInt64) :
    (bits &&& signMask).toNat = 2 ^ 63 * (bits.toNat / 2 ^ 63) := by
  have hmask : signMask.toNat = 2 ^ 63 := by decide
  have hbound : bits.toNat < 2 ^ 64 := bits.toNat_lt
  rw [UInt64.toNat_and, hmask, Nat.and_two_pow, Nat.testBit_eq_decide_div_mod_eq, Nat.mul_comm]
  by_cases hbit : bits.toNat / 2 ^ 63 % 2 = 1
  · rw [decide_eq_true hbit, Bool.toNat_true]
    omega
  · rw [decide_eq_false hbit, Bool.toNat_false]
    omega

/-- The sign bit of a number, and the rest of its bits, make up the number. -/
theorem abs_or_sign (x : Double) :
    (⟨x.abs.bits ||| if x.isNegative then signMask else 0⟩ : Double) = x := by
  have hsign : (if x.isNegative then signMask else 0) = x.bits &&& signMask := by
    have hmask : signMask.toNat = 2 ^ 63 := by decide
    have hbound : x.bits.toNat < 2 ^ 64 := x.bits.toNat_lt
    split
    · next hset =>
      rw [isNegative, bne_iff_ne, Ne, ← UInt64.toNat_inj, toNat_and_signMask, UInt64.toNat_zero] at hset
      rw [← UInt64.toNat_inj, toNat_and_signMask, hmask]
      omega
    · next hclear =>
      rw [isNegative, bne_iff_ne, not_not] at hclear
      exact hclear.symm
  rw [hsign]
  refine congrArg Double.mk (UInt64.toNat_inj.mp ?_)
  rw [UInt64.toNat_or, abs, toNat_and_not_signMask, toNat_and_signMask, Nat.or_comm,
    ← Nat.two_pow_add_eq_or_of_lt (Nat.mod_lt _ (by decide)), Nat.div_add_mod]

/-- The patterns of finite numbers come before those of the infinities and NaNs. -/
theorem toNat_abs_lt {x : Double} (h : x.isFinite = true) : x.abs.bits.toNat < exponentMask.toNat := by
  have hmask : exponentMask.toNat = 2047 * 2 ^ 52 := by decide
  rw [isFinite, bne_iff_ne, Ne, ← UInt64.toNat_inj, toNat_and_exponentMask, hmask] at h
  rw [abs, toNat_and_not_signMask]
  omega

/-- The test of the bits is right. -/
theorem isNaN_iff {x : Double} : x.isNaN = true ↔ x.kind = .nan := by
  have hmask : exponentMask.toNat = 2047 * 2 ^ 52 := by decide
  rw [kind_nan_iff, isNaN, decide_eq_true_iff, gt_iff_lt, UInt64.lt_iff_toNat_lt,
    toNat_and_not_signMask, hmask]
  omega

theorem not_nan_of_isFinite {x : Double} (h : x.isFinite = true) : x.kind ≠ .nan := by
  have hmask : exponentMask.toNat = 2047 * 2 ^ 52 := by decide
  rw [isFinite, bne_iff_ne, Ne, ← UInt64.toNat_inj, toNat_and_exponentMask, hmask] at h
  rw [Ne, kind_nan_iff]
  rintro ⟨hexponent, -⟩
  rw [hexponent] at h
  exact h rfl

end SignHash.Double
