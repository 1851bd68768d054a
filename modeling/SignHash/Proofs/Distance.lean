import Mathlib.Data.Nat.Count
import SignHash.Proofs.Code

/-!
# The Hamming distance as a metric

The bits that differ between the bytes of two codes of one length are the places at which their bits
differ; the zeros that fill the last byte are never among them. Whatever counts them in 32 bits, where
the count is right, the distance is the number of these places, and with codes of different lengths as
far apart as can be, it is a metric on all codes that are built. The byte by byte count is right for
codes that differ at fewer than 2 ^ 32 places.
-/

namespace SignHash.Code

variable {a b c : Code}

/-- The places of a code at which its bit is not that of another. -/
def differingPlaces (a b : Code) : Finset Nat :=
  (Finset.range a.length).filter fun i => a.bit i ≠ b.bit i

/-! ## Bytes -/

/-- How many bits are set in the bytes of one byte string or the other, but not in both. -/
def xorBits (a b : Bytes) : Nat :=
  (List.zipWith (· ^^^ ·) a b).foldr (fun x n => bitCount x + n) 0

/-- A count in 32 bits is the number of differing bits as far as 32 bits can tell. -/
theorem differingBits_eq {bytes bytes' : Bytes} (h : bytes.length = bytes'.length) :
    differingBits bytes bytes' = .ok (UInt32.ofNat (xorBits bytes bytes')) := by
  rw [differingBits, if_neg (not_not_intro h), xorBits]
  generalize List.zipWith (· ^^^ ·) bytes bytes' = bytes
  induction bytes with
  | nil => rfl
  | cons x bytes ih =>
    rw [List.foldr_cons, List.foldr_cons, UInt32.ofNat_add, Except.ok.inj ih]

theorem numberBits_xor (width m n : Nat) :
    numberBits width (m ^^^ n) = List.zipWith (· ^^ ·) (numberBits width m) (numberBits width n) := by
  simp only [numberBits, List.zipWith_map, List.zipWith_self, Nat.testBit_xor]

theorem xorBits_eq_countP {bytes bytes' : Bytes} (h : bytes.length = bytes'.length) :
    xorBits bytes bytes' =
      (List.zipWith (· ^^ ·) (unpack bytes) (unpack bytes')).countP id := by
  induction bytes generalizing bytes' with
  | nil => rfl
  | cons x bytes ih =>
    cases bytes' with
    | nil => cases h
    | cons y bytes' =>
      have hrest := ih (Nat.succ.inj h)
      rw [unpack_cons, unpack_cons, List.zipWith_append (by simp), List.countP_append, ← hrest,
        ← numberBits_xor, ← UInt8.toNat_xor]
      rfl

theorem countP_zipWith_xor {bits bits' : List Bool} (h : bits.length = bits'.length) :
    (List.zipWith (· ^^ ·) bits bits').countP id =
      Nat.count (fun i => bits[i]? ≠ bits'[i]?) bits.length := by
  induction bits generalizing bits' with
  | nil => rfl
  | cons x bits ih =>
    cases bits' with
    | nil => cases h
    | cons y bits' =>
      have hrest := ih (Nat.succ.inj h)
      rw [List.zipWith_cons_cons, List.countP_cons, hrest, List.length_cons, Nat.count_succ']
      simp

/-- The zeros after the bits are the same in both, so they add nothing. -/
theorem xorBits_pack {bits bits' : List Bool} (h : bits.length = bits'.length) :
    xorBits (pack bits) (pack bits') =
      Nat.count (fun i => bits[i]? ≠ bits'[i]?) bits.length := by
  have hpadding : ∀ k : Nat,
      (List.zipWith (· ^^ ·) (List.replicate k false) (List.replicate k false)).countP id = 0 := by
    intro k
    simp [List.countP_replicate]
  rw [xorBits_eq_countP (by simp [h]), unpack_pack, unpack_pack, List.zipWith_append h,
    List.countP_append, countP_zipWith_xor h, h, hpadding, Nat.add_zero]

/-! ## Places -/

theorem differingPlaces_ofBits (bits bits' : List Bool) :
    differingPlaces (ofBits bits) (ofBits bits') =
      (Finset.range bits.length).filter fun i => bits[i]? ≠ bits'[i]? := by
  simp only [differingPlaces, length_ofBits, bit_ofBits, ne_eq, Except.ok.injEq]

theorem differingPlaces_comm (h : a.length = b.length) : differingPlaces a b = differingPlaces b a := by
  simp only [differingPlaces, h, ne_comm]

/-- Where two codes differ, one of them differs from a third. -/
theorem differingPlaces_subset (h : a.length = b.length) :
    differingPlaces a c ⊆ differingPlaces a b ∪ differingPlaces b c := by
  intro i hi
  obtain ⟨hrange, hne⟩ := Finset.mem_filter.mp hi
  rw [Finset.mem_union, differingPlaces, differingPlaces, Finset.mem_filter, Finset.mem_filter, ← h]
  by_cases hab : a.bit i = b.bit i
  · exact .inr ⟨hrange, hab ▸ hne⟩
  · exact .inl ⟨hrange, hab⟩

theorem differingPlaces_eq_empty_iff (ha : a.Built) (hb : b.Built) (h : a.length = b.length) :
    differingPlaces a b = ∅ ↔ a = b := by
  obtain ⟨bits, rfl⟩ := ha.exists_bits
  obtain ⟨bits', rfl⟩ := hb.exists_bits
  constructor
  · intro hempty
    rw [differingPlaces_ofBits, Finset.filter_eq_empty_iff] at hempty
    refine congrArg ofBits (List.ext_getElem? fun i => ?_)
    by_cases hi : i < bits.length
    · exact Decidable.not_not.mp (hempty (Finset.mem_range.mpr hi))
    · have hi' : bits'.length ≤ i := by rw [length_ofBits, length_ofBits] at h; omega
      rw [List.getElem?_eq_none (Nat.le_of_not_lt hi), List.getElem?_eq_none hi']
  · intro heq
    rw [← heq, differingPlaces, Finset.filter_eq_empty_iff]
    exact fun _ _ hne => hne rfl

theorem card_differingPlaces_le (a b : Code) : (differingPlaces a b).card ≤ a.length := by
  have hle := Finset.card_filter_le (Finset.range a.length) fun i => a.bit i ≠ b.bit i
  rwa [Finset.card_range] at hle

/-- The bytes of codes that are built differ in as many bits as the codes have places that differ. -/
theorem xorBits_eq_card (ha : a.Built) (hb : b.Built) (h : a.length = b.length) :
    xorBits a.bytes b.bytes = (differingPlaces a b).card := by
  obtain ⟨bits, rfl⟩ := ha.exists_bits
  obtain ⟨bits', rfl⟩ := hb.exists_bits
  rw [differingPlaces_ofBits, ← Nat.count_eq_card_filter_range]
  exact xorBits_pack h

theorem length_bytes_eq (ha : a.Built) (hb : b.Built) (h : a.length = b.length) :
    a.bytes.length = b.bytes.length := by
  rw [ha.wellFormed.size, hb.wellFormed.size, h]

/-! ## Distances -/

/-- A counter finds how many bits differ between the bytes of two codes. -/
def Counts (count : Bytes → Bytes → Except Fault UInt32) (a b : Code) : Prop :=
  ∃ n, count a.bytes b.bytes = .ok n ∧ n.toNat = xorBits a.bytes b.bytes

/-- The byte by byte count is the number of places that differ, up to a multiple of 2 ^ 32. -/
theorem hammingDistance_eq (ha : a.Built) (hb : b.Built) (h : a.length = b.length) :
    a.hammingDistance b = .ok (UInt32.ofNat (differingPlaces a b).card) := by
  rw [hammingDistance, hammingDistanceBy, if_neg (not_not_intro h),
    differingBits_eq (length_bytes_eq ha hb h), xorBits_eq_card ha hb h]
  rfl

/-- Fewer than 2 ^ 32 differing bits are counted byte by byte; more are counted by nothing that has 32
bits for them. -/
theorem counts_differingBits_iff (ha : a.Built) (hb : b.Built) (h : a.length = b.length) :
    Counts differingBits a b ↔ (differingPlaces a b).card < 2 ^ 32 := by
  rw [← xorBits_eq_card ha hb h]
  constructor
  · rintro ⟨n, -, hn⟩
    exact hn ▸ n.toNat_lt
  · intro few
    refine ⟨_, differingBits_eq (length_bytes_eq ha hb h), ?_⟩
    rw [UInt32.toNat_ofNat', Nat.mod_eq_of_lt few]

/-- So all that differs between codes of fewer than 2 ^ 32 bits is counted. -/
theorem counts_of_short {codes : List Code} (short : ∀ x ∈ codes, x.Built ∧ x.length < 2 ^ 32) :
    ∀ x ∈ codes, ∀ y ∈ codes, x.length = y.length → Counts differingBits x y := by
  intro x hx y hy h
  obtain ⟨hbuilt, hlength⟩ := short x hx
  exact (counts_differingBits_iff hbuilt (short y hy).1 h).mpr
    (Nat.lt_of_le_of_lt (card_differingPlaces_le x y) hlength)

section

variable {count : Bytes → Bytes → Except Fault UInt32}

theorem exists_hammingDistanceBy (ha : a.Built) (hb : b.Built) (h : a.length = b.length)
    (counts : Counts count a b) :
    ∃ n, a.hammingDistanceBy count b = .ok n ∧ n.toNat = (differingPlaces a b).card ∧
      a.distanceBy count b = .ok n.toUInt64 := by
  obtain ⟨n, hcount, hn⟩ := counts
  have hdistance : a.hammingDistanceBy count b = .ok n := by
    rw [hammingDistanceBy, if_neg (not_not_intro h), hcount]
    rfl
  exact ⟨n, hdistance, hn.trans (xorBits_eq_card ha hb h), by rw [distanceBy, hdistance]⟩

theorem distanceBy_of_length_ne (h : a.length ≠ b.length) : a.distanceBy count b = .ok farthest := by
  rw [distanceBy, hammingDistanceBy, if_pos h]

/-- A word is how far apart two codes should be. -/
def IsDistance (a b : Code) (n : UInt64) : Prop :=
  n.toNat = if a.length = b.length then (differingPlaces a b).card else farthest.toNat

/-- Where the count is right, so is the distance. -/
theorem exists_isDistance (ha : a.Built) (hb : b.Built)
    (counts : a.length = b.length → Counts count a b) :
    ∃ n, a.distanceBy count b = .ok n ∧ IsDistance a b n := by
  by_cases h : a.length = b.length
  · obtain ⟨n, -, hn, hdistance⟩ := exists_hammingDistanceBy ha hb h (counts h)
    exact ⟨_, hdistance, by rw [IsDistance, if_pos h, UInt32.toNat_toUInt64, hn]⟩
  · exact ⟨_, distanceBy_of_length_ne h, by rw [IsDistance, if_neg h]⟩

namespace IsDistance

variable {n m ab bc ac : UInt64}

theorem eq (h : IsDistance a b n) (h' : IsDistance a b m) : n = m :=
  UInt64.toNat_inj.mp (h.trans h'.symm)

theorem comm (h : IsDistance a b n) : IsDistance b a n := by
  rw [IsDistance, h]
  by_cases hlength : a.length = b.length
  · rw [if_pos hlength, if_pos hlength.symm, differingPlaces_comm hlength]
  · rw [if_neg hlength, if_neg (Ne.symm hlength)]

/-- Only a code itself is at no distance from it. -/
theorem eq_zero_iff (ha : a.Built) (hb : b.Built) (h : IsDistance a b n) : n = 0 ↔ a = b := by
  rw [← UInt64.toNat_inj, h]
  by_cases hlength : a.length = b.length
  · rw [if_pos hlength, ← differingPlaces_eq_empty_iff ha hb hlength, ← Finset.card_eq_zero]
    rfl
  · rw [if_neg hlength]
    exact iff_of_false (by decide) fun heq => hlength (congrArg Code.length heq)

/-- The triangle inequality holds across lengths too: if two codes of one length are compared with a
third of another, both steps are as long as can be. -/
theorem triangle (hab : IsDistance a b ab) (hbc : IsDistance b c bc) (hac : IsDistance a c ac) :
    ac.toNat ≤ ab.toNat + bc.toNat := by
  have hmost : ac.toNat ≤ farthest.toNat := Nat.le_of_lt_succ ac.toNat_lt
  rw [IsDistance] at hab hbc
  by_cases h : a.length = b.length
  · by_cases h' : b.length = c.length
    · rw [if_pos h] at hab
      rw [if_pos h'] at hbc
      rw [IsDistance, if_pos (h.trans h')] at hac
      calc ac.toNat = (differingPlaces a c).card := hac
        _ ≤ (differingPlaces a b ∪ differingPlaces b c).card :=
          Finset.card_le_card (differingPlaces_subset h)
        _ ≤ (differingPlaces a b).card + (differingPlaces b c).card := Finset.card_union_le _ _
        _ = ab.toNat + bc.toNat := by rw [hab, hbc]
    · rw [if_neg h'] at hbc
      omega
  · rw [if_neg h] at hab
    omega

end IsDistance

end

/-- The distance of codes that are built is the number of places that differ if they have one length,
and the greatest word if not, and it is a metric, for any count in 32 bits that finds how many bits
differ between the codes of one length that are compared. The byte by byte count comes to the number of
places that differ, as far as 32 bits can tell, and so is right exactly if there are fewer than 2 ^ 32. -/
theorem distance_is_metric {count : Bytes → Bytes → Except Fault UInt32} (ha : a.Built) (hb : b.Built)
    (hc : c.Built)
    (counts : ∀ x ∈ [a, b, c], ∀ y ∈ [a, b, c], x.length = y.length → Counts count x y) :
    (a.length = b.length →
      (∃ n, a.hammingDistanceBy count b = .ok n ∧ n.toNat = (differingPlaces a b).card ∧
        a.distanceBy count b = .ok n.toUInt64) ∧
      a.hammingDistance b = .ok (UInt32.ofNat (differingPlaces a b).card) ∧
      (Counts differingBits a b ↔ (differingPlaces a b).card < 2 ^ 32)) ∧
    (a.length ≠ b.length → a.distanceBy count b = .ok 0xffffffffffffffff) ∧
    (a.distanceBy count b = .ok 0 ↔ a = b) ∧
    a.distanceBy count b = b.distanceBy count a ∧
    ∃ ab bc ac, a.distanceBy count b = .ok ab ∧ b.distanceBy count c = .ok bc ∧
      a.distanceBy count c = .ok ac ∧ ac.toNat ≤ ab.toNat + bc.toNat := by
  obtain ⟨ab, hab, isAb⟩ := exists_isDistance ha hb (counts a (by simp) b (by simp))
  obtain ⟨ba, hba, isBa⟩ := exists_isDistance hb ha (counts b (by simp) a (by simp))
  obtain ⟨bc, hbc, isBc⟩ := exists_isDistance hb hc (counts b (by simp) c (by simp))
  obtain ⟨ac, hac, isAc⟩ := exists_isDistance ha hc (counts a (by simp) c (by simp))
  refine ⟨fun h => ⟨exists_hammingDistanceBy ha hb h (counts a (by simp) b (by simp) h),
    hammingDistance_eq ha hb h, counts_differingBits_iff ha hb h⟩, distanceBy_of_length_ne, ?_, ?_, ab,
    bc, ac, hab, hbc, hac, isAb.triangle isBc isAc⟩
  · rw [hab, Except.ok.injEq]
    exact isAb.eq_zero_iff ha hb
  · rw [hab, hba, isAb.comm.eq isBa]

/-- Two codes of ten bits that differ at three places, and one of a single bit, with their bits counted
byte by byte. -/
theorem distance_is_metric_of_ten : ∃ a b c : Code, ofHex "cb80" 10 = .ok a ∧ ofNat 0x26c 10 = .ok b ∧
    c = ofBits [true] ∧ (∃ n, a.hammingDistance b = .ok n ∧ n.toNat = (differingPlaces a b).card) ∧
    differingPlaces a b = {1, 3, 8} ∧ a.distance c = .ok 0xffffffffffffffff := by
  have ha : ofHex "cb80" 10 = .ok ⟨[0xcb, 0x80], 10⟩ := by decide +kernel
  have hb : ofNat 0x26c 10 = .ok ⟨[0x9b, 0x00], 10⟩ := by decide +kernel
  have hdistances := distance_is_metric (.ofHex ha) (.ofNat hb) (.ofBits [true])
    (counts_of_short (by simp [Built.ofHex ha, Built.ofNat hb, Built.ofBits]))
  have hother := distance_is_metric (.ofHex ha) (.ofBits [true]) (.ofNat hb)
    (counts_of_short (by simp [Built.ofHex ha, Built.ofNat hb, Built.ofBits]))
  obtain ⟨n, hn, hcard, -⟩ := (hdistances.1 rfl).1
  exact ⟨_, _, _, ha, hb, rfl, ⟨n, hn, hcard⟩, by decide +kernel, hother.2.1 (by decide)⟩

end SignHash.Code
