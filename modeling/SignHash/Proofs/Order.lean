import SignHash.Proofs.Code

/-!
# The order of codes

Codes are compared by their bytes, and codes of the same bytes by their lengths. For codes that are
built this is the lexicographic order of their bits, in which a beginning comes before the whole, and
for codes of one length it is the order of the numbers that they write.

A byte is compared as its eight bits are, so only the zeros after the last bit are to be accounted
for. Two codes that agree as far as the shorter one goes may differ in its zeros, and then the longer
one has a set bit where they do; or they agree in these zeros as well, and then the longer one has
more bytes, or as many of them and the greater length.
-/

namespace SignHash.Code

/-! ## Lists -/

theorem compare_append {α : Type} [Ord α] {xs ys : List α} (h : xs.length = ys.length)
    (xs' ys' : List α) :
    compare (xs ++ xs') (ys ++ ys') = (compare xs ys).then (compare xs' ys') := by
  induction xs generalizing ys with
  | nil =>
    obtain rfl := List.eq_nil_of_length_eq_zero h.symm
    rw [List.compare_nil_nil, Ordering.eq_then, List.nil_append, List.nil_append]
  | cons x xs ih =>
    cases ys with
    | nil => cases h
    | cons y ys =>
      have htail := ih (Nat.succ.inj h)
      rw [List.cons_append, List.cons_append, List.compare_cons_cons, List.compare_cons_cons, htail,
        Ordering.then_assoc]

/-- A comparison of lists of bits says which one comes first in the lexicographic order. -/
theorem compare_eq_lt_iff {bits bits' : List Bool} : compare bits bits' = .lt ↔ bits < bits' := by
  induction bits generalizing bits' with
  | nil =>
    cases bits' with
    | nil => simp
    | cons b' bits' => simp
  | cons b bits ih =>
    cases bits' with
    | nil => simp
    | cons b' bits' =>
      have hhead : compare b b' = .lt ↔ b < b' := Std.LawfulLTCmp.eq_lt_iff_lt
      rw [List.compare_cons_cons, Ordering.then_eq_lt, ih, List.cons_lt_cons_iff, hhead,
        Std.compare_eq_iff_eq]

/-! ## Numbers -/

theorem compare_add_left (k m n : Nat) : compare (k + m) (k + n) = compare m n := by
  simp only [Nat.compare_eq_ite_lt, Nat.add_lt_add_iff_left]

/-- Of as many bits, the greater number is written by the list that comes later. -/
theorem compare_bitsNumber {bits bits' : List Bool} (h : bits.length = bits'.length) :
    compare (bitsNumber bits) (bitsNumber bits') = compare bits bits' := by
  induction bits generalizing bits' with
  | nil =>
    obtain rfl := List.eq_nil_of_length_eq_zero h.symm
    rfl
  | cons b bits ih =>
    cases bits' with
    | nil => cases h
    | cons b' bits' =>
      have hlength : bits.length = bits'.length := Nat.succ.inj h
      have hlt := bitsNumber_lt bits
      have hlt' := bitsNumber_lt bits'
      rw [bitsNumber_cons, bitsNumber_cons, List.compare_cons_cons, ← hlength]
      rw [← hlength] at hlt'
      -- the first bit is worth more than all others together
      by_cases hb : b = b'
      · rw [hb, compare_add_left, ih hlength, Std.compare_self, Ordering.eq_then]
      · cases b <;> cases b'
        · exact absurd rfl hb
        · exact Nat.compare_eq_lt.mpr (by simp; omega)
        · exact Nat.compare_eq_gt.mpr (by simp; omega)
        · exact absurd rfl hb

/-! ## Bytes -/

theorem compare_byte (b b' : UInt8) :
    compare b b' = compare (numberBits 8 b.toNat) (numberBits 8 b'.toNat) := by
  have hnumber : ∀ x : UInt8, bitsNumber (numberBits 8 x.toNat) = x.toNat := by
    intro x
    rw [bitsNumber_numberBits, Nat.mod_eq_of_lt x.toNat_lt]
  rw [← compare_bitsNumber (by simp), hnumber, hnumber]
  simp only [compare, compareOfLessAndEq, UInt8.lt_iff_toNat_lt, UInt8.toNat_inj]

theorem compare_unpack (bytes bytes' : Bytes) :
    compare bytes bytes' = compare (unpack bytes) (unpack bytes') := by
  induction bytes generalizing bytes' with
  | nil =>
    cases bytes' with
    | nil => rfl
    | cons b' bytes' => rfl
  | cons b bytes ih =>
    cases bytes' with
    | nil => rfl
    | cons b' bytes' =>
      rw [List.compare_cons_cons, unpack_cons, unpack_cons, compare_append (by simp), ← compare_byte,
        ih]

/-! ## Zeros after the bits -/

/-- Zeros come before everything that is as long. -/
theorem compare_zeros_then (k : Nat) {bits : List Bool} (h : k ≤ bits.length) :
    (compare (List.replicate k false) bits).then .lt = .lt := by
  induction k generalizing bits with
  | zero => cases bits <;> rfl
  | succ k ih =>
    cases bits with
    | nil => cases h
    | cons b bits =>
      have hrest := ih (Nat.le_of_succ_le_succ h)
      rw [List.replicate_succ, List.compare_cons_cons, Ordering.then_assoc, hrest]
      cases b <;> rfl

/-- Zeros after the bits do not matter if the lengths without them decide in the end, as long as a
list that has no more bits than the other one is no longer than it with the zeros. -/
theorem compare_padded {bits bits' : List Bool} {k k' : Nat}
    (hle : bits.length ≤ bits'.length → bits.length + k ≤ bits'.length + k')
    (hge : bits'.length ≤ bits.length → bits'.length + k' ≤ bits.length + k) :
    (compare (bits ++ List.replicate k false) (bits' ++ List.replicate k' false)).then
      (compare bits.length bits'.length) = compare bits bits' := by
  induction bits generalizing bits' with
  | nil =>
    cases bits' with
    | nil =>
      have hk : k = k' := by simp at hle hge; omega
      rw [hk, Std.compare_self]
      rfl
    | cons b' bits' =>
      have hzeros : k ≤ (b' :: bits' ++ List.replicate k' false).length := by simp at hle ⊢; omega
      have hlength : compare ([] : List Bool).length (b' :: bits').length = .lt :=
        Nat.compare_eq_lt.mpr (Nat.succ_pos _)
      rw [List.nil_append, hlength, compare_zeros_then k hzeros]
      rfl
  | cons b bits ih =>
    cases bits' with
    | nil =>
      -- the same with both sides exchanged
      have hzeros : k' ≤ (b :: bits ++ List.replicate k false).length := by simp at hge ⊢; omega
      have hlength : compare (b :: bits).length ([] : List Bool).length = .gt :=
        Nat.compare_eq_gt.mpr (Nat.succ_pos _)
      have hswap := congrArg Ordering.swap (compare_zeros_then k' hzeros)
      rw [Ordering.swap_then, ← Std.OrientedOrd.eq_swap] at hswap
      rw [List.nil_append, hlength]
      exact hswap
    | cons b' bits' =>
      have hrest : (compare (bits ++ List.replicate k false) (bits' ++ List.replicate k' false)).then
          (compare bits.length bits'.length) = compare bits bits' :=
        ih (by simp at hle ⊢; omega) (by simp at hge ⊢; omega)
      rw [List.cons_append, List.cons_append, List.compare_cons_cons, List.compare_cons_cons,
        Ordering.then_assoc, ← hrest]
      rw [List.length_cons, List.length_cons, Nat.add_comm _ 1, Nat.add_comm _ 1, compare_add_left]

/-! ## Codes -/

theorem order_ofBits (bits bits' : List Bool) :
    order (ofBits bits) (ofBits bits') = compare bits bits' := by
  have hpadded : ∀ p q : List Bool, p.length ≤ q.length →
      p.length + (8 * byteCount p.length - p.length) ≤
        q.length + (8 * byteCount q.length - q.length) := by
    intro p q hle
    simp only [byteCount]
    omega
  have hbytes : compare (pack bits) (pack bits') =
      compare (bits ++ List.replicate (8 * byteCount bits.length - bits.length) false)
        (bits' ++ List.replicate (8 * byteCount bits'.length - bits'.length) false) := by
    rw [compare_unpack, unpack_pack, unpack_pack]
  show (compare (pack bits) (pack bits')).then (compare bits.length bits'.length) = _
  rw [hbytes, compare_padded (hpadded bits bits') (hpadded bits' bits)]

/-- A code stands for its bits, in content and in order. It has the bits that it is built from and
no others, it is the code of the bits that it has, and two codes are in the lexicographic order of
their bits, where a beginning comes first. If both have the same length and fit into a word, that is
the order of their numbers. -/
theorem codes_stand_for_bits (bits : List Bool) (a b : Code) :
    ((ofBits bits).toBits = .ok bits ∧ (ofBits bits).length = bits.length ∧
      ∀ i, (ofBits bits).bit i = .ok bits[i]?) ∧
    (a.Built → ∃ p, a.toBits = .ok p ∧ ofBits p = a) ∧
    (a.Built → b.Built → ∃ p q, a.toBits = .ok p ∧ b.toBits = .ok q ∧
      (order a b = .lt ↔ p < q) ∧ (order a b = .eq ↔ p = q) ∧ (order a b = .gt ↔ q < p) ∧
      (a.length = b.length → a.length ≤ 64 →
        ∃ m n, a.toNat? = .ok (some m) ∧ b.toNat? = .ok (some n) ∧ order a b = compare m n)) := by
  refine ⟨⟨toBits_ofBits bits, rfl, bit_ofBits bits⟩, ?_, ?_⟩
  · intro ha
    obtain ⟨p, rfl⟩ := ha.exists_bits
    exact ⟨p, toBits_ofBits p, rfl⟩
  · intro ha hb
    obtain ⟨p, rfl⟩ := ha.exists_bits
    obtain ⟨q, rfl⟩ := hb.exists_bits
    rw [order_ofBits]
    refine ⟨p, q, toBits_ofBits p, toBits_ofBits q, compare_eq_lt_iff, Std.compare_eq_iff_eq, ?_, ?_⟩
    · rw [Std.OrientedCmp.gt_iff_lt, compare_eq_lt_iff]
    · intro hlength hword
      have hp : p.length ≤ wordBits := hword
      have hq : q.length ≤ wordBits := hlength.ge.trans hword
      refine ⟨bitsNumber p, bitsNumber q, ?_, ?_, (compare_bitsNumber hlength).symm⟩
      · rw [toNat?_ofBits, if_pos hp]
      · rw [toNat?_ofBits, if_pos hq]

/-- Five bits, and the same with three and with eight zeros after them: the first two have the same
byte, and the third has a byte of zeros too. A code that differs from it in the last bit is later. -/
theorem codes_stand_for_bits_of_zeros : ∃ a b c d : Code, ofNat 22 5 = .ok a ∧
    ofHex "b0" 8 = .ok b ∧ ofHex "B000" 13 = .ok c ∧ ofHex "b008" 13 = .ok d ∧
    a.bytes = b.bytes ∧ order a b = .lt ∧ order b c = .lt ∧ order c d = compare 5632 5633 := by
  have ha : ofNat 22 5 = .ok ⟨[0xb0], 5⟩ := by decide +kernel
  have hb : ofHex "b0" 8 = .ok ⟨[0xb0], 8⟩ := by decide +kernel
  have hc : ofHex "B000" 13 = .ok ⟨[0xb0, 0x00], 13⟩ := by decide +kernel
  have hd : ofHex "b008" 13 = .ok ⟨[0xb0, 0x08], 13⟩ := by decide +kernel
  obtain ⟨p, q, hp, hq, hab, -⟩ := (codes_stand_for_bits [] _ _).2.2 (.ofNat ha) (.ofHex hb)
  obtain ⟨q', r, hq', hr, hbc, -⟩ := (codes_stand_for_bits [] _ _).2.2 (.ofHex hb) (.ofHex hc)
  obtain ⟨-, -, -, -, -, -, -, hnumbers⟩ :=
    (codes_stand_for_bits [] _ _).2.2 (.ofHex hc) (.ofHex hd)
  obtain ⟨m, n, hm, hn, hcd⟩ := hnumbers rfl (by decide)
  cases hp; cases hq; cases hq'; cases hr; cases hm; cases hn
  exact ⟨_, _, _, _, ha, hb, hc, hd, rfl, hab.mpr (by decide), hbc.mpr (by decide), hcd⟩

end SignHash.Code
