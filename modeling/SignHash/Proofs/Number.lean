import Mathlib.Algebra.BigOperators.Intervals
import SignHash.Proofs.Code
import SignHash.Proofs.Word

/-!
# Codes as numbers

A code of at most 64 bits writes a number, its first bit highest, and every number that fits into so
many bits is written by one code. The conversions are stated on natural numbers; in the arithmetic of
words they come to the same, since no word is ever shifted by as many places as it has bits and no bit
is shifted out of it.
-/

namespace SignHash.Code

/-! ## Sums over the set bits -/

/-- The places of a code at which its bit is set. -/
def setPlaces (c : Code) : Finset Nat :=
  (Finset.range c.length).filter fun i => c.bit i = .ok (some true)

theorem setPlaces_ofBits (bits : List Bool) :
    setPlaces (ofBits bits) = (Finset.range bits.length).filter fun i => bits[i]? = some true := by
  simp only [setPlaces, length_ofBits, bit_ofBits, Except.ok.injEq]

/-- Each set bit adds the power of two of its place, counted from the end. -/
theorem bitsNumber_eq_sum (bits : List Bool) :
    bitsNumber bits = ∑ i ∈ setPlaces (ofBits bits), 2 ^ (bits.length - 1 - i) := by
  rw [setPlaces_ofBits, Finset.sum_filter]
  induction bits with
  | nil => rfl
  | cons b bits ih =>
    have hfirst : (if (b :: bits)[0]? = some true then 2 ^ ((b :: bits).length - 1 - 0) else 0) =
        b.toNat * 2 ^ bits.length := by
      cases b <;> simp
    have hrest : ∀ i, (if (b :: bits)[i + 1]? = some true then
          2 ^ ((b :: bits).length - 1 - (i + 1)) else 0) =
        if bits[i]? = some true then 2 ^ (bits.length - 1 - i) else 0 := by
      intro i
      have hplace : (b :: bits).length - 1 - (i + 1) = bits.length - 1 - i := by
        rw [List.length_cons]
        omega
      rw [List.getElem?_cons_succ, hplace]
    calc bitsNumber (b :: bits)
        = b.toNat * 2 ^ bits.length + bitsNumber bits := bitsNumber_cons b bits
      _ = _ := by
        rw [ih, List.length_cons, Finset.sum_range_succ', ← List.length_cons (a := b), hfirst,
          Nat.add_comm]
        simp only [hrest]

/-! ## Bits of words -/

/-- The bits of a word, `length` of them, the highest first, each moved down to the lowest place. -/
def bitsOfWord? (value : UInt64) (length : Nat) : Option (List Bool) :=
  (List.range length).mapM fun i =>
    (Word.shiftRight? value (length - 1 - i)).map fun word => word &&& 1 == 1

/-- Whether a word takes more bits than a code has. -/
def exceeds? (value : UInt64) (length : Nat) : Option Bool :=
  if wordBits < length then some true
  else if length < wordBits then (Word.shiftRight? value length).map (· != 0)
  else some false

/-- The code of `length` bits that writes a word. -/
def ofWord? (value : UInt64) (length : Nat) : Option (Except Error Code) := do
  if ← exceeds? value length then
    return .error (.validation (.doesNotFit value.toNat length))
  else return .ok (ofBits (← bitsOfWord? value length))

theorem mapM_eq_some {α β : Type} {f : α → Option β} {g : α → β} {as : List α}
    (h : ∀ a ∈ as, f a = some (g a)) : as.mapM f = some (as.map g) := by
  induction as with
  | nil => rfl
  | cons a as ih =>
    have hrest := ih fun b hb => h b (List.mem_cons_of_mem a hb)
    rw [List.mapM_cons, h a List.mem_cons_self, hrest]
    rfl

theorem and_one_eq_testBit (word : UInt64) : (word &&& 1 == 1) = word.toNat.testBit 0 := by
  rw [Nat.testBit_zero, Bool.eq_iff_iff, beq_iff_eq, decide_eq_true_iff, ← UInt64.toNat_inj,
    UInt64.toNat_and]
  show word.toNat &&& 1 = 1 ↔ word.toNat % 2 = 1
  rw [Nat.and_one_is_mod]

/-- No shift goes past the width of the word, and the bits are those of its value. -/
theorem bitsOfWord?_eq {length : Nat} (value : UInt64) (fits : length ≤ 64) :
    bitsOfWord? value length = some (numberBits length value.toNat) := by
  refine mapM_eq_some fun i hi => ?_
  have hlt := List.mem_range.mp hi
  have hplaces : length - 1 - i < 64 := by omega
  obtain ⟨word, hword, hvalue⟩ := Word.exists_shiftRight? value hplaces
  rw [hword, Option.map_some, and_one_eq_testBit, hvalue, Nat.testBit_shiftRight, Nat.add_zero]

/-- The test for bits beyond the length shifts by less than the width, or is not made at all. -/
theorem exceeds?_eq (value : UInt64) (length : Nat) :
    exceeds? value length = some (decide (wordBits < length ∨ 2 ^ length ≤ value.toNat)) := by
  have hvalue := value.toNat_lt
  rw [exceeds?]
  by_cases hlong : wordBits < length
  · rw [if_pos hlong, decide_eq_true (Or.inl hlong)]
  · rw [if_neg hlong]
    by_cases hshort : length < wordBits
    · obtain ⟨word, hword, hshift⟩ := Word.exists_shiftRight? value hshort
      rw [if_pos hshort, hword, Option.map_some]
      have hzero : word = 0 ↔ value.toNat < 2 ^ length := by
        rw [← UInt64.toNat_inj, hshift, Nat.shiftRight_eq_div_pow]
        exact Nat.div_eq_zero_iff_lt (Nat.two_pow_pos length)
      rw [Option.some_inj, Bool.eq_iff_iff, bne_iff_ne, decide_eq_true_iff, or_iff_right hlong, ne_eq,
        hzero, Nat.not_lt]
    · -- a code of as many bits as a word holds every word, and nothing is shifted
      have hlength : length = 64 := Nat.le_antisymm (Nat.le_of_not_lt hlong) (Nat.le_of_not_lt hshort)
      subst hlength
      rw [if_neg hshort, decide_eq_false]
      rintro (h | h)
      · exact hlong h
      · exact absurd hvalue (Nat.not_lt.mpr h)

/-- On words of 64 bits, a number is accepted or refused as it is without a limit on its size. -/
theorem ofWord?_eq (value : UInt64) (length : Nat) :
    ofWord? value length = some (ofNat value.toNat length) := by
  rw [ofWord?, exceeds?_eq, ofNat, Nat.one_shiftLeft]
  by_cases h : wordBits < length ∨ 2 ^ length ≤ value.toNat
  · rw [if_pos h, decide_eq_true h]
    rfl
  · rw [if_neg h, decide_eq_false h]
    rw [not_or, Nat.not_lt] at h
    have hbits := bitsOfWord?_eq value h.1
    simp [hbits]

/-! ## Words of bits -/

/-- A word with a bit put after it. -/
def appendBit? (word : UInt64) (b : Bool) : Option UInt64 := do
  return (← Word.shiftLeft? word 1) ||| b.toUInt64

/-- The word that bits write, the highest first. -/
def wordOfBits? (bits : List Bool) : Option UInt64 := bits.foldlM appendBit? 0

/-- With the highest bit free, nothing is lost as another bit is appended. -/
theorem exists_appendBit? {word : UInt64} (room : word.toNat < 2 ^ 63) (b : Bool) :
    ∃ z, appendBit? word b = some z ∧ z.toNat = 2 * word.toNat + b.toNat := by
  have hshift : word.toNat <<< 1 = 2 ^ 1 * word.toNat := by rw [Nat.shiftLeft_eq, Nat.mul_comm]
  have hkept : word.toNat <<< 1 < 2 ^ 64 := by rw [hshift]; omega
  have hbit : b.toUInt64.toNat = b.toNat := by cases b <;> rfl
  have hlt : b.toNat < 2 ^ 1 := b.toNat_lt
  obtain ⟨shifted, hshifted, hvalue⟩ := Word.exists_shiftLeft? (by decide) hkept
  refine ⟨shifted ||| b.toUInt64, ?_, ?_⟩
  · rw [appendBit?, hshifted]
    rfl
  · rw [UInt64.toNat_or, hvalue, hbit, hshift, ← Nat.two_pow_add_eq_or_of_lt hlt]

/-- What was written before moves up by as many places as there are bits, and none of it is lost. -/
theorem exists_foldlM_appendBit? {bits : List Bool} {word : UInt64}
    (room : word.toNat * 2 ^ bits.length + bitsNumber bits < 2 ^ 64) :
    ∃ z, bits.foldlM appendBit? word = some z ∧
      z.toNat = word.toNat * 2 ^ bits.length + bitsNumber bits := by
  induction bits generalizing word with
  | nil => exact ⟨word, rfl, by simp⟩
  | cons b bits ih =>
    have hnumber : word.toNat * 2 ^ (b :: bits).length + bitsNumber (b :: bits) =
        (2 * word.toNat + b.toNat) * 2 ^ bits.length + bitsNumber bits := by
      rw [bitsNumber_cons, List.length_cons, Nat.pow_succ]
      ring
    rw [hnumber] at room ⊢
    have hfirst : word.toNat < 2 ^ 63 := by
      have hle : 2 * word.toNat + b.toNat ≤ (2 * word.toNat + b.toNat) * 2 ^ bits.length :=
        Nat.le_mul_of_pos_right _ (Nat.two_pow_pos _)
      omega
    obtain ⟨next, hnext, hvalue⟩ := exists_appendBit? hfirst b
    rw [← hvalue] at room ⊢
    obtain ⟨z, hz, hresult⟩ := ih room
    refine ⟨z, ?_, hresult⟩
    rw [List.foldlM_cons, hnext]
    exact hz

/-- So up to 64 bits make a word without a bit lost. -/
theorem exists_wordOfBits? {bits : List Bool} (fits : bits.length ≤ 64) :
    ∃ word, wordOfBits? bits = some word ∧ word.toNat = bitsNumber bits := by
  have hlt : bitsNumber bits < 2 ^ 64 :=
    Nat.lt_of_lt_of_le (bitsNumber_lt bits) (Nat.pow_le_pow_right (by decide) fits)
  have hnumber : (0 : UInt64).toNat * 2 ^ bits.length + bitsNumber bits = bitsNumber bits := by
    rw [UInt64.toNat_zero, Nat.zero_mul, Nat.zero_add]
  obtain ⟨word, hword, hvalue⟩ := exists_foldlM_appendBit? (hnumber.trans_lt hlt)
  exact ⟨word, hword, hvalue.trans hnumber⟩

/-! ## Exact conversions -/

/-- A word is the number of a code exactly if it fits into the code's bits, which are then its binary
digits, the highest first. A code that is built has the number that its set bits add up to, if it is no
longer than a word, and is the code of that number. Both ways the arithmetic of words gives the same:
all its shifts are by fewer places than a word has, and none of them loses a bit. -/
theorem numbers_convert_exactly (value : UInt64) (length : Nat) (c : Code) :
    ((∃ d, ofNat value.toNat length = .ok d) ↔ length ≤ 64 ∧ value.toNat < 2 ^ length) ∧
    (∀ d, ofNat value.toNat length = .ok d →
      d.length = length ∧ d.toNat? = .ok (some value.toNat) ∧
        ∀ i < length, d.bit i = .ok (some (value.toNat.testBit (length - 1 - i)))) ∧
    ofWord? value length = some (ofNat value.toNat length) ∧
    (c.Built →
      c.toNat? =
        .ok (if c.length ≤ 64 then some (∑ i ∈ setPlaces c, 2 ^ (c.length - 1 - i)) else none) ∧
      (c.length ≤ 64 → ∃ bits word, c.toBits = .ok bits ∧ wordOfBits? bits = some word ∧
        word.toNat = ∑ i ∈ setPlaces c, 2 ^ (c.length - 1 - i) ∧
        ofNat word.toNat c.length = .ok c)) := by
  refine ⟨?_, ?_, ofWord?_eq value length, ?_⟩
  · constructor
    · rintro ⟨d, hd⟩
      exact (ofNat_eq_ok_iff.mp hd).1
    · intro hfits
      exact ⟨_, ofNat_eq_ok_iff.mpr ⟨hfits, rfl⟩⟩
  · intro d hd
    obtain ⟨⟨hle, hlt⟩, rfl⟩ := ofNat_eq_ok_iff.mp hd
    have hword : (numberBits length value.toNat).length ≤ wordBits := by
      rw [length_numberBits]
      exact hle
    refine ⟨length_numberBits _ _, ?_, fun i hi => ?_⟩
    · rw [toNat?_ofBits, if_pos hword, bitsNumber_numberBits, Nat.mod_eq_of_lt hlt]
    · rw [bit_ofBits, getElem?_numberBits hi]
  · intro hc
    obtain ⟨bits, rfl⟩ := hc.exists_bits
    have hsum := bitsNumber_eq_sum bits
    rw [length_ofBits, ← hsum]
    refine ⟨toNat?_ofBits bits, fun hle => ?_⟩
    obtain ⟨word, hword, hvalue⟩ := exists_wordOfBits? hle
    refine ⟨bits, word, toBits_ofBits bits, hword, hvalue, ?_⟩
    rw [hvalue, ofNat_eq_ok_iff, numberBits_bitsNumber]
    exact ⟨⟨hle, bitsNumber_lt bits⟩, rfl⟩

/-- A word with its first and last bit set, a code of as many bits as a word, all set, and a length far
beyond a word. -/
theorem numbers_convert_exactly_at_limits :
    (∃ d, ofNat 0x8000000000000001 64 = .ok d ∧ d.toNat? = .ok (some 0x8000000000000001) ∧
      d.bit 0 = .ok (some (Nat.testBit 0x8000000000000001 63))) ∧
    (∃ bits word, (ofBits (List.replicate 64 true)).toBits = .ok bits ∧
      wordOfBits? bits = some word ∧ ofNat word.toNat 64 = .ok (ofBits (List.replicate 64 true))) ∧
    ¬∃ d, ofNat 1 0xffffffffffffffff = .ok d := by
  obtain ⟨hfits, hbits, -, hcode⟩ :=
    numbers_convert_exactly 0x8000000000000001 64 (ofBits (List.replicate 64 true))
  obtain ⟨hlong, -⟩ := numbers_convert_exactly 1 0xffffffffffffffff (ofBits [])
  obtain ⟨d, hd⟩ := hfits.mpr (by decide)
  obtain ⟨-, hnumber, hbit⟩ := hbits d hd
  obtain ⟨bits, word, hheld, hword, -, hback⟩ := (hcode (.ofBits _)).2 (by decide)
  exact ⟨⟨d, hd, hnumber, hbit 0 (by decide)⟩, ⟨bits, word, hheld, hword, hback⟩,
    fun h => absurd (hlong.mp h).1 (by decide)⟩

end SignHash.Code
