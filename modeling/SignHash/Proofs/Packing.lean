import Mathlib.Algebra.Order.Group.Nat
import Mathlib.Tactic.Ring
import SignHash.Code.Basic

/-!
# Bits, numbers and bytes

`numberBits` and `bitsNumber` undo each other on numbers that fit into the width. Unpacked again,
packed bits are followed by zeros up to the next whole byte, and different byte strings unpack to
different bits.
-/

namespace SignHash.Code

/-! ## Bits of a number -/

@[simp] theorem length_numberBits (width n : Nat) : (numberBits width n).length = width := by
  simp [numberBits]

/-- The highest bit comes first. -/
theorem getElem?_numberBits {width i : Nat} (hi : i < width) (n : Nat) :
    (numberBits width n)[i]? = some (n.testBit (width - 1 - i)) := by
  simp [numberBits, hi]

theorem numberBits_succ (width n : Nat) :
    numberBits (width + 1) n = n.testBit width :: numberBits width n := by
  rw [numberBits, List.range_succ_eq_map, List.map_cons, List.map_map, numberBits]
  congr 1
  apply List.map_congr_left
  intro i _
  rw [Function.comp_apply]
  congr 1
  omega

/-- Without the first bits of a number, those of its lower places are left. -/
theorem drop_numberBits (width k n : Nat) : (numberBits width n).drop k = numberBits (width - k) n := by
  induction k generalizing width with
  | zero => rfl
  | succ k ih =>
    cases width with
    | zero => simp [numberBits]
    | succ width => rw [numberBits_succ, List.drop_succ_cons, ih, Nat.add_sub_add_right]

/-- The bits of a number are those of its upper part followed by those of its lower part. -/
theorem numberBits_add (upper lower n : Nat) :
    numberBits (upper + lower) n = numberBits upper (n / 2 ^ lower) ++ numberBits lower n := by
  induction upper with
  | zero => simp [numberBits]
  | succ upper ih =>
    have hbit : (n / 2 ^ lower).testBit upper = n.testBit (upper + lower) := by
      rw [Nat.testBit_div_two_pow, Nat.add_comm]
    rw [Nat.succ_add, numberBits_succ, numberBits_succ, ih, hbit, List.cons_append]

theorem numberBits_mod (width n : Nat) : numberBits width (n % 2 ^ width) = numberBits width n := by
  simp only [numberBits]
  apply List.map_congr_left
  intro i hi
  have hlt := List.mem_range.mp hi
  rw [Nat.testBit_mod_two_pow, decide_eq_true (by omega), Bool.true_and]

/-! ## Numbers of bits -/

@[simp] theorem bitsNumber_nil : bitsNumber [] = 0 := rfl

/-- Bits read from the highest on append themselves to what has been read. -/
theorem foldl_bits (bits : List Bool) (n : Nat) :
    bits.foldl (fun n b => 2 * n + b.toNat) n = n * 2 ^ bits.length + bitsNumber bits := by
  induction bits generalizing n with
  | nil => simp
  | cons b bits ih =>
    rw [bitsNumber, List.foldl_cons, List.foldl_cons, ih, ih, List.length_cons, Nat.pow_succ]
    ring

theorem bitsNumber_cons (b : Bool) (bits : List Bool) :
    bitsNumber (b :: bits) = b.toNat * 2 ^ bits.length + bitsNumber bits := by
  rw [bitsNumber, List.foldl_cons, foldl_bits, Nat.mul_zero, Nat.zero_add]

/-- Bits in front count as many places higher as there are bits behind them. -/
theorem bitsNumber_append (bits more : List Bool) :
    bitsNumber (bits ++ more) = bitsNumber bits * 2 ^ more.length + bitsNumber more :=
  List.foldl_append.trans (foldl_bits more (bitsNumber bits))

/-- So many bits make a number below that power of two. -/
theorem bitsNumber_lt (bits : List Bool) : bitsNumber bits < 2 ^ bits.length := by
  induction bits with
  | nil => simp
  | cons b bits ih =>
    rw [bitsNumber_cons, List.length_cons, Nat.pow_succ]
    cases b <;> simp only [Bool.toNat_false, Bool.toNat_true] <;> omega

theorem bitsNumber_eq_zero_iff {bits : List Bool} : bitsNumber bits = 0 ↔ ∀ b ∈ bits, b = false := by
  induction bits with
  | nil => simp
  | cons b bits ih =>
    rw [bitsNumber_cons, Nat.add_eq_zero_iff, ih, List.forall_mem_cons]
    cases b <;> simp

@[simp] theorem bitsNumber_replicate_false (k : Nat) : bitsNumber (List.replicate k false) = 0 :=
  bitsNumber_eq_zero_iff.mpr fun _ h => List.eq_of_mem_replicate h

/-- Bits are the digits of their number, with the zeros in front. -/
theorem numberBits_bitsNumber (bits : List Bool) :
    numberBits bits.length (bitsNumber bits) = bits := by
  suffices h : ∀ n, numberBits bits.length (2 ^ bits.length * n + bitsNumber bits) = bits by
    simpa using h 0
  induction bits with
  | nil => intro n; rfl
  | cons b bits ih =>
    intro n
    -- the first bit is the lowest one of what stands above the others
    have hsplit : 2 ^ (b :: bits).length * n + bitsNumber (b :: bits) =
        2 ^ bits.length * (2 * n + b.toNat) + bitsNumber bits := by
      rw [bitsNumber_cons, List.length_cons, Nat.pow_succ]
      ring
    rw [hsplit, List.length_cons, numberBits_succ, ih]
    congr 1
    rw [Nat.testBit_two_pow_mul_add _ (bitsNumber_lt bits), if_neg (Nat.lt_irrefl _), Nat.sub_self]
    cases b <;> simp [Nat.testBit_zero]

/-- What does not fit into the width is cut off at the high end. -/
theorem bitsNumber_numberBits (width n : Nat) : bitsNumber (numberBits width n) = n % 2 ^ width := by
  induction width with
  | zero => simp [numberBits, Nat.mod_one]
  | succ width ih =>
    have hbit : (n.testBit width).toNat = n / 2 ^ width % 2 := Nat.toNat_testBit n width
    rw [numberBits_succ, bitsNumber_cons, length_numberBits, ih, hbit, Nat.pow_succ, Nat.mod_mul]
    ring

/-! ## Bytes -/

/-- A byte with fewer than eight bits is filled with zeros. -/
theorem numberBits_packByte {bits : List Bool} (h : bits.length ≤ 8) :
    numberBits 8 (packByte bits).toNat = bits ++ List.replicate (8 - bits.length) false := by
  let padded := bits ++ List.replicate (8 - bits.length) false
  have hlength : padded.length = 8 := by simp [padded]; omega
  have hnumber : bitsNumber bits <<< (8 - bits.length) = bitsNumber padded := by
    simp [padded, bitsNumber_append, Nat.shiftLeft_eq]
  have hlt : bitsNumber padded < 256 := by
    have := bitsNumber_lt padded
    rwa [hlength] at this
  rw [packByte, hnumber, UInt8.toNat_ofNat', Nat.mod_eq_of_lt hlt]
  calc numberBits 8 (bitsNumber padded) = numberBits padded.length (bitsNumber padded) := by rw [hlength]
    _ = padded := numberBits_bitsNumber padded

theorem byte_eq_of_bits {b b' : UInt8} (h : numberBits 8 b.toNat = numberBits 8 b'.toNat) : b = b' := by
  have hnumber := congrArg bitsNumber h
  rw [bitsNumber_numberBits, bitsNumber_numberBits, Nat.mod_eq_of_lt b.toNat_lt,
    Nat.mod_eq_of_lt b'.toNat_lt] at hnumber
  exact UInt8.toNat_inj.mp hnumber

/-! ## Byte strings -/

@[simp] theorem unpack_nil : unpack [] = [] := rfl

@[simp] theorem unpack_cons (b : UInt8) (bytes : Bytes) :
    unpack (b :: bytes) = numberBits 8 b.toNat ++ unpack bytes := rfl

@[simp] theorem unpack_append (bytes more : Bytes) :
    unpack (bytes ++ more) = unpack bytes ++ unpack more := List.flatMap_append

@[simp] theorem length_unpack (bytes : Bytes) : (unpack bytes).length = 8 * bytes.length := by
  induction bytes with
  | nil => rfl
  | cons b bytes ih => rw [unpack_cons, List.length_append, length_numberBits, ih, List.length_cons]; ring

/-- Bytes are determined by their bits. -/
theorem unpack_injective {bytes bytes' : Bytes} (h : unpack bytes = unpack bytes') : bytes = bytes' := by
  induction bytes generalizing bytes' with
  | nil =>
    have hlength := congrArg List.length h
    rw [length_unpack, length_unpack, List.length_nil] at hlength
    exact (List.eq_nil_of_length_eq_zero (by omega)).symm
  | cons b bytes ih =>
    cases bytes' with
    | nil =>
      have hlength := congrArg List.length h
      simp at hlength
    | cons b' bytes' =>
      rw [unpack_cons, unpack_cons] at h
      obtain ⟨hbits, hrest⟩ := List.append_inj h (by simp)
      rw [byte_eq_of_bits hbits, ih hrest]

/-- The bits of numbers that are written one after another, place by place. -/
theorem getElem?_flatMap_numberBits {α : Type} {width : Nat} (positive : 0 < width) (number : α → Nat)
    (xs : List α) (i : Nat) : (xs.flatMap fun x => numberBits width (number x))[i]? =
      xs[i / width]?.map fun x => (number x).testBit (width - 1 - i % width) := by
  induction xs generalizing i with
  | nil => simp
  | cons x xs ih =>
    rw [List.flatMap_cons]
    by_cases hi : i < width
    · rw [List.getElem?_append_left (by simpa using hi), getElem?_numberBits hi,
        Nat.div_eq_of_lt hi, Nat.mod_eq_of_lt hi]
      rfl
    · have hle : width ≤ i := Nat.le_of_not_lt hi
      have hquotient : i / width = (i - width) / width + 1 := Nat.div_eq_sub_div positive hle
      have hremainder : i % width = (i - width) % width := Nat.mod_eq_sub_mod hle
      rw [List.getElem?_append_right (by simpa using hle), length_numberBits, ih, hquotient,
        hremainder, List.getElem?_cons_succ]

/-- A bit is in the byte that an eighth of its place tells. -/
theorem getElem?_unpack (bytes : Bytes) (i : Nat) :
    (unpack bytes)[i]? = bytes[i / 8]?.map fun b => b.toNat.testBit (7 - i % 8) :=
  getElem?_flatMap_numberBits (by decide) UInt8.toNat bytes i

/-! ## Packed bits -/

@[simp] theorem length_pack (bits : List Bool) : (pack bits).length = byteCount bits.length := by
  simp [pack]

/-- The first eight bits are in the first byte. -/
theorem pack_eq_cons {bits : List Bool} (h : bits ≠ []) :
    pack bits = packByte (bits.take 8) :: pack (bits.drop 8) := by
  have hpos := List.length_pos_iff.mpr h
  have hcount : byteCount bits.length = byteCount (bits.drop 8).length + 1 := by
    simp only [byteCount, List.length_drop]
    omega
  rw [pack, hcount, List.range_succ_eq_map, List.map_cons, List.map_map]
  congr 1
  apply List.map_congr_left
  intro i _
  rw [Function.comp_apply, List.drop_drop, Nat.mul_succ, Nat.add_comm]

/-- Unpacked again, bits are followed by zeros that fill the last byte. -/
theorem unpack_pack (bits : List Bool) :
    unpack (pack bits) =
      bits ++ List.replicate (8 * byteCount bits.length - bits.length) false := by
  by_cases h : bits = []
  · subst h
    rfl
  · have hpos := List.length_pos_iff.mpr h
    rw [pack_eq_cons h, unpack_cons, numberBits_packByte (List.length_take_le 8 bits),
      unpack_pack (bits.drop 8), List.length_take, List.length_drop]
    by_cases hshort : bits.length ≤ 8
    · -- one byte holds all bits
      rw [List.take_of_length_le hshort, List.drop_of_length_le hshort, Nat.min_eq_right hshort,
        Nat.sub_eq_zero_of_le hshort]
      have hone : byteCount bits.length = 1 := by rw [byteCount]; omega
      have hnone : byteCount 0 = 0 := rfl
      simp [hone, hnone]
    · have hfull : 8 - min 8 bits.length = 0 := by omega
      have hpadding : 8 * byteCount (bits.length - 8) - (bits.length - 8) =
          8 * byteCount bits.length - bits.length := by
        simp only [byteCount]
        omega
      rw [hfull, hpadding, List.replicate_zero, List.append_nil, ← List.append_assoc,
        List.take_append_drop]
termination_by bits.length
decreasing_by
  rw [List.length_drop]
  omega

end SignHash.Code
