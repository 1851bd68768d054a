import SignHash.Proofs.Preparation
import SignHash.Proofs.Scaling

/-!
# Descriptors at unit length

A model that scales descriptors to length one gives a descriptor and its multiple by a power of two the
same code if their lengths, as they are computed, are that power of two apart, or both infinite. They
are that power of two apart if no square of a component is so small that bits are lost, and the sums of
the squares are finite. Otherwise the codes may differ: a length that is taken for zero leaves a
descriptor as it is, and one that is taken for infinite makes its components zero.
-/

namespace SignHash

open Double

variable {k : ℤ} {g : Double → Double} {x : List Double}

/-! ## Lengths -/

/-- The squared length of components as it is computed is finite, and those that are not zero are so
large that their squares are normal numbers. -/
def HasLength (x : List Double) : Prop :=
  (squareSum x).isFinite = true ∧ ∀ a ∈ x, a.value = 0 ∨ 2 ^ (-511 : ℤ) ≤ |a.value|

/-- Two squared lengths as they are computed are 2 ^ (2 k) apart, and zero only for components that are
all zero; or both are infinite. -/
def LengthsAgree (k : ℤ) (x y : List Double) : Prop :=
  (squareSum x).isFinite = true ∧ (squareSum y).isFinite = true ∧
      (squareSum y).value = 2 ^ (2 * k) * (squareSum x).value ∧
      ((squareSum x).value = 0 → ∀ a ∈ x, a.value = 0) ∨
    (squareSum x).isFinite = false ∧ (squareSum y).isFinite = false

theorem foldl_notBelowZero (squares : List Double) {sum : Double} (hsum : sum.NotBelowZero)
    (h : ∀ a ∈ squares, a.NotBelowZero) : (squares.foldl (· + ·) sum).NotBelowZero := by
  induction squares generalizing sum with
  | nil => exact hsum
  | cons a squares ih =>
    rw [List.forall_mem_cons] at h
    exact ih (hsum.add h.1) h.2

theorem notBelowZero_squareSum (finite : ∀ a ∈ x, a.isFinite = true) :
    (squareSum x).NotBelowZero := by
  have hsquare : ∀ a ∈ x, (a * a).NotBelowZero :=
    fun a ha => notBelowZero_mul_self (not_nan_of_isFinite (finite a ha))
  cases x with
  | nil => exact notBelowZero_zero
  | cons a x =>
    rw [List.forall_mem_cons] at hsquare
    exact foldl_notBelowZero _ hsquare.1 (List.forall_mem_map.mpr hsquare.2)

/-- Numbers that a component and its multiple are: zero, or large enough for their squares. -/
def ScalesLarge (k : ℤ) (a b : Double) : Prop :=
  Scales k a b ∧ (size a.opened = 0 ∨
    2 ^ (-511 : ℤ) ≤ size a.opened ∧ 2 ^ (-511 : ℤ) ≤ size b.opened)

theorem foldl_tracks (x : List Double) {zero : Prop} {sum sum' : Double}
    (h : Tracks (2 * k) zero sum sum') (scales : ∀ a ∈ x, ScalesLarge k a (g a)) :
    Tracks (2 * k) (zero ∧ ∀ a ∈ x, size a.opened = 0) ((x.map fun a => a * a).foldl (· + ·) sum)
      (((x.map g).map fun a => a * a).foldl (· + ·) sum') := by
  -- the sums so far are a power of two apart, unless one of them is infinite already
  induction x generalizing zero sum sum' with
  | nil => exact h.congr (by simp)
  | cons a x ih =>
    rw [List.forall_mem_cons] at scales
    obtain ⟨⟨ha, hlarge⟩, hx⟩ := scales
    exact (ih (h.add (ha.tracks_mul_self hlarge)) hx).congr (by rw [List.forall_mem_cons, and_assoc])

/-- The sum of the squares of components that are multiplied by 2 ^ k is 2 ^ (2 k) times as large. -/
theorem squareSum_tracks (scales : ∀ a ∈ x, ScalesLarge k a (g a)) :
    Tracks (2 * k) (∀ a ∈ x, size a.opened = 0) (squareSum x) (squareSum (x.map g)) := by
  cases x with
  | nil =>
    refine ⟨notBelowZero_zero, notBelowZero_zero, fun _ _ => ?_⟩
    have hzero : size (0 : Double).opened = 0 := rfl
    simp [squareSum, hzero]
  | cons a x =>
    rw [List.forall_mem_cons] at scales
    obtain ⟨⟨ha, hlarge⟩, hx⟩ := scales
    exact (foldl_tracks x (ha.tracks_mul_self hlarge) hx).congr (by rw [List.forall_mem_cons])

/-- Lengths that can be computed agree. -/
theorem lengthsAgree_of_hasLength (scales : ∀ a ∈ x, Scales k a (g a)) (hx : HasLength x)
    (hy : HasLength (x.map g)) : LengthsAgree k x (x.map g) := by
  obtain ⟨hlength, hlarge⟩ := hx
  obtain ⟨hlength', hlarge'⟩ := hy
  have hscales : ∀ a ∈ x, ScalesLarge k a (g a) := by
    refine fun a ha => ⟨scales a ha, ?_⟩
    have hcases := hlarge a ha
    have hcases' := hlarge' _ (List.mem_map_of_mem ha)
    rw [value_eq_zero_iff, abs_value] at hcases hcases'
    rcases hcases with hzero | hle
    · exact .inl hzero
    · rcases hcases' with hzero' | hle'
      · exact .inl ((scales a ha).zero_iff.mp hzero')
      · exact .inr ⟨hle, hle'⟩
  obtain ⟨hsum, hsum', htracks⟩ := squareSum_tracks hscales
  have hkind := hsum.kind_of_isFinite hlength
  have hkind' := hsum'.kind_of_isFinite hlength'
  obtain ⟨hsize, hzero⟩ := htracks hkind hkind'
  refine .inl ⟨hlength, hlength', ?_, fun hnone a ha => ?_⟩
  · rw [value_of_positive hkind, value_of_positive hkind', hsize]
  · rw [value_eq_zero_iff] at hnone ⊢
    rcases hzero with ⟨hall, -⟩ | ⟨-, hnormal, -⟩
    · exact hall a ha
    · rw [hnone] at hnormal
      exact absurd hnormal (not_le.mpr (by positivity))

/-! ## Scaling to length one -/

/-- Components that are all zero are the same after they are multiplied. -/
theorem map_eq_self_of_zero (scales : ∀ a ∈ x, Scales k a (g a))
    (zero : ∀ a ∈ x, size a.opened = 0) : x.map g = x := by
  refine List.map_congr_left (fun a ha => ?_) |>.trans (List.map_id x)
  have hscales := scales a ha
  have hzero := hscales.zero_iff.mpr (zero a ha)
  obtain ⟨s, hkind, hkind', -⟩ := hscales
  refine eq_of_opened (by rw [hkind']; nofun) ?_
  rw [opened_eq_zero hkind' hzero]
  exact (opened_eq_zero hkind (zero a ha)).symm

/-- Components multiplied by a power of two are the same when they are scaled to length one, if their
lengths are that power of two apart. -/
theorem scaledToOne_map_of_scales (scales : ∀ a ∈ x, Scales k a (g a))
    (sums : Scales (2 * k) (squareSum x) (squareSum (x.map g)))
    (finite : (squareSum x).kind = .finite .positive) (pos : 0 < size (squareSum x).opened) :
    scaledToOne (x.map g) = scaledToOne x := by
  obtain ⟨hroot, hkind, hrootpos⟩ := sums.sqrt finite pos
  have hkind' : (sqrt (squareSum (x.map g))).kind = .finite .positive := by
    obtain ⟨s, hs, hs', -⟩ := hroot
    rw [hs', ← hs, hkind]
  have hrootpos' : 0 < size (sqrt (squareSum (x.map g))).opened := by
    obtain ⟨-, -, -, hrootsize⟩ := hroot
    rw [hrootsize]
    positivity
  rw [scaledToOne, scaledToOne, if_pos (zero_lt_of_size_pos hkind' hrootpos'),
    if_pos (zero_lt_of_size_pos hkind hrootpos), List.map_map]
  exact List.map_congr_left fun a ha => ((scales a ha).div hroot hrootpos).symm

/-- Components of infinite length are the same when they are scaled, if they have the same signs. -/
theorem scaledToOne_map_of_infinite (scales : ∀ a ∈ x, Scales k a (g a))
    (infinite : (squareSum x).kind = .infinite .positive)
    (infinite' : (squareSum (x.map g)).kind = .infinite .positive) :
    scaledToOne (x.map g) = scaledToOne x := by
  have hroot : ∀ n : Double, n.kind = .infinite .positive →
      (sqrt n).kind = .infinite .positive ∧ 0 < sqrt n := by
    intro n hn
    have hopen : (sqrt n).opened = .infinity .positive := by
      rw [sqrt_eq_written, opened_of_infinite hn]
      rfl
    exact ⟨congrArg kindOf hopen, lt_iff.mpr (by rw [hopen]; rfl)⟩
  obtain ⟨hkind, hpos⟩ := hroot _ infinite
  obtain ⟨hkind', hpos'⟩ := hroot _ infinite'
  rw [scaledToOne, scaledToOne, if_pos hpos', if_pos hpos, List.map_map]
  refine List.map_congr_left fun a ha => ?_
  obtain ⟨s, hs, hs', -⟩ := scales a ha
  have hopen := opened_div_infinite hs hkind
  have hopen' := opened_div_infinite hs' hkind'
  refine eq_of_opened ?_ (hopen'.trans hopen.symm)
  rw [Function.comp_apply, kind, hopen']
  intro hnan
  cases hnan

/-- Components multiplied by a power of two are the same when they are scaled to length one, if their
lengths agree. -/
theorem scaledToOne_map (scales : ∀ a ∈ x, Scales k a (g a)) (hsum : (squareSum x).NotBelowZero)
    (hsum' : (squareSum (x.map g)).NotBelowZero) (agree : LengthsAgree k x (x.map g)) :
    scaledToOne (x.map g) = scaledToOne x := by
  rcases agree with ⟨hlength, hlength', hvalue, hzero⟩ | ⟨hlong, hlong'⟩
  · have hkind := hsum.kind_of_isFinite hlength
    have hkind' := hsum'.kind_of_isFinite hlength'
    rw [value_of_positive hkind, value_of_positive hkind'] at hvalue
    rw [value_of_positive hkind] at hzero
    rcases (size_nonneg (squareSum x).opened).eq_or_lt with hnone | hpos
    -- a length of zero leaves the components as they are, so they have to be zero themselves
    · have hall : ∀ a ∈ x, size a.opened = 0 :=
        fun a ha => value_eq_zero_iff.mp (hzero hnone.symm a ha)
      rw [map_eq_self_of_zero scales hall]
    · exact scaledToOne_map_of_scales scales ⟨_, hkind, hkind', hvalue⟩ hkind hpos
  · exact scaledToOne_map_of_infinite scales (hsum.kind_of_not_isFinite hlong)
      (hsum'.kind_of_not_isFinite hlong')

/-! ## Codes -/

/-- Under a model that scales to length one, components that are scaled alike have the same code. -/
theorem Encoder.encodeComponents_congr {m : Model Double} {y : List Double}
    (normalizes : m.normalize = true) (hx : ∀ a ∈ x, a.isFinite = true)
    (hy : ∀ a ∈ y, a.isFinite = true) (same : x.length = y.length)
    (scaled : scaledToOne x = scaledToOne y) :
    (ofModel m).encodeComponents x = (ofModel m).encodeComponents y := by
  by_cases hlength : x.length = m.dimension
  · obtain ⟨v, rfl⟩ : ∃ v : Vector Double m.dimension, v.toList = x := ⟨⟨x.toArray, hlength⟩, rfl⟩
    obtain ⟨w, rfl⟩ : ∃ w : Vector Double m.dimension, w.toList = y :=
      ⟨⟨y.toArray, same.symm.trans hlength⟩, rfl⟩
    have hif : ∀ z, scaledIf true z = scaledToOne z := fun _ => rfl
    have hprepared : (m.prepare v).toList = (m.prepare w).toList := by
      rw [Model.toList_prepare, Model.toList_prepare, normalizes, hif, hif, scaled]
    rw [encodeComponents_toList hx, encodeComponents_toList hy]
    exact congrArg (fun z => Except.ok (Code.ofBits (Model.bitsAgainst m.hyperplanes z))) hprepared
  · have hlength' : ¬y.length = (ofModel m).model.dimension := fun h => hlength (same.trans h)
    replace hlength : ¬x.length = (ofModel m).model.dimension := hlength
    rw [encodeComponents, encodeComponents, dif_neg hlength, dif_neg hlength', same]

/-- Under a model that scales to length one, components and their exact products with a power of two
have the same code if their lengths as they are computed agree; and they agree if the squares are
neither too small nor their sums too large. -/
theorem codes_ignore_length {m : Model Double} {x : List Double} {s : Double}
    (normalizes : m.normalize = true) (finite : ∀ a ∈ x, a.isFinite = true)
    (power : s.value = 2 ^ k)
    (exact : ∀ a ∈ x, (s * a).isFinite = true ∧ (s * a).value = s.value * a.value) :
    (LengthsAgree k x (x.map (s * ·)) → (Encoder.ofModel m).encodeComponents (x.map (s * ·)) =
      (Encoder.ofModel m).encodeComponents x) ∧
    (HasLength x → HasLength (x.map (s * ·)) → LengthsAgree k x (x.map (s * ·))) := by
  have hscales : ∀ a ∈ x, Scales k a (s * a) :=
    fun a ha => scales_mul power (finite a ha) (exact a ha).1 (exact a ha).2
  have hfinite : ∀ a ∈ x.map (s * ·), a.isFinite = true :=
    List.forall_mem_map.mpr fun a ha => (exact a ha).1
  refine ⟨fun hagree => ?_, lengthsAgree_of_hasLength hscales⟩
  exact Encoder.encodeComponents_congr normalizes hfinite finite (List.length_map _)
    (scaledToOne_map hscales (notBelowZero_squareSum finite) (notBelowZero_squareSum hfinite) hagree)

/-- The model of one component and one bit that scales to length one and has the mean one half. -/
def halfway : Model Double :=
  ⟨1, 1, .replicate 1 half, .ofFn fun _ _ => 1, .ofFn fun _ _ => 1, true⟩

/-- The number three and four times as much have the same code under the halfway model. -/
theorem codes_ignore_length_of_three :
    let three : Double := ⟨0x4008000000000000⟩
    let four : Double := ⟨0x4010000000000000⟩
    (four * three).value = 12 ∧ LengthsAgree 2 [three] [four * three] ∧
      (Encoder.ofModel halfway).encodeComponents [four * three] =
        (Encoder.ofModel halfway).encodeComponents [three] := by
  intro three four
  have hthree : (⟨0x4008000000000000⟩ : Double).value = 3 := by
    have hopen : (⟨0x4008000000000000⟩ : Double).opened =
      .finite .positive (3 * 2 ^ 51) (-51) (by decide) := rfl
    rw [value_of_opened hopen]
    norm_num
  have hfour : (⟨0x4010000000000000⟩ : Double).value = 2 ^ (2 : ℤ) := by
    have hopen : (⟨0x4010000000000000⟩ : Double).opened =
      .finite .positive (2 ^ 52) (-50) (by decide) := rfl
    rw [value_of_opened hopen]
    norm_num
  have htwelve : (four * three).value = 12 := by
    have hproduct : four * three = ⟨0x4028000000000000⟩ := by decide +kernel
    have hopen : (⟨0x4028000000000000⟩ : Double).opened =
      .finite .positive (3 * 2 ^ 51) (-49) (by decide) := rfl
    rw [hproduct, value_of_opened hopen]
    norm_num
  have hlarge : ∀ q : ℚ, 1 ≤ q → (2 : ℚ) ^ (-511 : ℤ) ≤ |q| := by
    intro q hq
    have hsmall : (2 : ℚ) ^ (-511 : ℤ) ≤ 1 := zpow_le_one_of_nonpos₀ (by norm_num) (by decide)
    exact hsmall.trans (hq.trans (le_abs_self q))
  have hexact : (four * three).value = four.value * three.value := by
    rw [htwelve, hfour, hthree]
    norm_num
  obtain ⟨hcodes, hlengths⟩ := codes_ignore_length (m := halfway) (x := [three]) rfl (by decide)
    hfour (List.forall_mem_singleton.mpr ⟨by decide +kernel, hexact⟩)
  have hagree : LengthsAgree 2 [three] [four * three] := by
    refine hlengths ⟨by decide +kernel, List.forall_mem_singleton.mpr (.inr (hlarge _ ?_))⟩
      ⟨by decide +kernel, List.forall_mem_singleton.mpr (.inr (hlarge _ ?_))⟩
    · rw [hthree]
      norm_num
    · rw [htwelve]
      norm_num
  exact ⟨htwelve, hagree, hcodes hagree⟩

/-- The number one, and 2 ^ 600 times as much, have different codes under the halfway model, which is
accepted: the square of 2 ^ 600 is infinite. -/
theorem codes_depend_on_length :
    ¬∀ (bytes : List UInt8) (m : Model Double) (x : List Double) (s : Double) (k : ℤ),
      Model.ofBytes bytes = .ok m → m.normalize = true → (∀ a ∈ x, a.isFinite = true) →
        s.value = 2 ^ k →
        (∀ a ∈ x, (s * a).isFinite = true ∧ (s * a).value = s.value * a.value) →
        (Encoder.ofModel m).encodeComponents (x.map (s * ·)) =
          (Encoder.ofModel m).encodeComponents x := by
  intro h
  have hissue : halfway.issue? = none := by decide +kernel
  have hread : Model.ofBytes halfway.toBytes = .ok halfway := Model.ofBytes_toBytes hissue (by decide)
  have hone : (1 : Double).value = 1 := by
    have hopen : (1 : Double).opened = .finite .positive (2 ^ 52) (-52) (by decide) := rfl
    rw [value_of_opened hopen]
    norm_num
  have hlarge : (⟨0x6570000000000000⟩ : Double).value = 2 ^ (600 : ℤ) := by
    have hopen : (⟨0x6570000000000000⟩ : Double).opened =
      .finite .positive (2 ^ 52) 548 (by decide) := rfl
    rw [value_of_opened hopen, Nat.cast_pow, Nat.cast_ofNat, ← zpow_natCast, ← zpow_add₀ (by decide)]
    rfl
  have hproduct : (⟨0x6570000000000000⟩ * 1 : Double) = ⟨0x6570000000000000⟩ := by decide +kernel
  have hexact : (⟨0x6570000000000000⟩ * 1 : Double).value =
      (⟨0x6570000000000000⟩ : Double).value * (1 : Double).value := by rw [hproduct, hone, mul_one]
  have hsame := h _ halfway [1] ⟨0x6570000000000000⟩ 600 hread rfl (by decide) hlarge
    (List.forall_mem_singleton.mpr ⟨by rw [hproduct]; decide, hexact⟩)
  rw [List.map_singleton, hproduct] at hsame
  revert hsame
  decide +kernel

end SignHash
