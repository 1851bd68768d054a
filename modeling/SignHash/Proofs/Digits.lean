import SignHash.Proofs.Code
import SignHash.Proofs.Word

/-!
# Codes in hexadecimal digits

A code is written with two digits for each byte, so each digit stands for four of its bits. The texts
that are accepted as the digits of a code are those that it is written as, in letters of either case.
All others are refused with a reason, also those whose bytes are of the right number but belong to
other characters than digits.
-/

namespace SignHash.Code

/-! ## Four bits to a digit -/

/-- The bits of bytes are those of their digits, four to each. -/
theorem unpack_eq_flatMap (bytes : Bytes) :
    unpack bytes = (Hex.digitNumbers bytes).flatMap fun n => numberBits 4 n := by
  induction bytes with
  | nil => rfl
  | cons b bytes ih =>
    have hlower : numberBits 4 (b.toNat % 16) = numberBits 4 b.toNat := numberBits_mod 4 b.toNat
    have hbyte : numberBits 8 b.toNat = numberBits 4 (b.toNat / 16) ++ numberBits 4 (b.toNat % 16) := by
      rw [hlower]
      exact numberBits_add 4 4 b.toNat
    rw [unpack_cons, Hex.digitNumbers_cons, List.flatMap_cons, List.flatMap_cons, ih, hbyte,
      List.append_assoc]

/-- The bit at a place in what digits write, four of them to a digit, the highest first. -/
def digitBit? (s : String) (place : Nat) : Option Bool := do
  let n ← Hex.digitNumber? (← s.toList[place / 4]?)
  return n.testBit (3 - place % 4)

/-- A bit of the bytes is found in the digit that a quarter of its place tells. -/
theorem digitBit?_eq_getElem? {s : String} {bytes : Bytes}
    (h : s.toList.map Hex.digitNumber? = (Hex.digitNumbers bytes).map some) (place : Nat) :
    digitBit? s place = (unpack bytes)[place]? := by
  have hdigit := congrArg (·[place / 4]?) h
  simp only [List.getElem?_map] at hdigit
  rw [unpack_eq_flatMap, getElem?_flatMap_numberBits (by decide), digitBit?]
  cases hc : s.toList[place / 4]? with
  | none =>
    rw [hc] at hdigit
    have hnone : (Hex.digitNumbers bytes)[place / 4]? = none := by simpa using hdigit.symm
    rw [hnone]
    rfl
  | some c =>
    rw [hc] at hdigit
    obtain ⟨n, hn, hnumber⟩ := Option.map_eq_some_iff.mp hdigit.symm
    rw [hn, Option.bind_eq_bind, Option.bind_some, ← hnumber]
    rfl

theorem forall_mem_drop_iff {bits : List Bool} {length : Nat} :
    (∀ b ∈ bits.drop length, b = false) ↔ ∀ place, length ≤ place → bits[place]? ≠ some true := by
  constructor
  · intro h place hle hbit
    have hdrop : (bits.drop length)[place - length]? = some true := by
      rw [List.getElem?_drop, Nat.add_sub_cancel' hle, hbit]
    exact Bool.noConfusion (h true (List.mem_of_getElem? hdrop))
  · intro h b hb
    obtain ⟨i, hi⟩ := List.mem_iff_getElem?.mp hb
    rw [List.getElem?_drop] at hi
    have hplace := h (length + i) (Nat.le_add_right length i)
    cases b with
    | false => rfl
    | true => exact absurd hi hplace

/-- The texts that write a code of so many bits: two digits for each byte, and no bit is set at the
length or beyond it. -/
structure WritesCode (s : String) (length : Nat) : Prop where
  size : s.length = 2 * byteCount length
  digits : ∀ c ∈ s.toList, ∃ n, Hex.digitNumber? c = some n
  padding : ∀ place, length ≤ place → digitBit? s place ≠ some true

/-! ## Accepted digits -/

/-- What is accepted are the digits of the code, up to letter case. -/
theorem ofHex_eq_ok_iff_toHex {s : String} {length : Nat} {c : Code} :
    ofHex s length = .ok c ↔ c.toHex = s.toLower ∧ c.length = length ∧ c.WellFormed := by
  rw [ofHex_eq_ok_iff, Hex.decode_eq_ok_iff, Hex.map_digitValue?_encode, ← Hex.encode_eq_toLower_iff]
  rfl

theorem map_digitNumber?_of_ofHex {s : String} {length : Nat} {c : Code}
    (h : ofHex s length = .ok c) :
    s.toList.map Hex.digitNumber? = (Hex.digitNumbers c.bytes).map some :=
  Hex.encode_eq_toLower_iff.mp (ofHex_eq_ok_iff_toHex.mp h).1

/-- Digits are accepted exactly if they write a code of the length. -/
theorem exists_ofHex_iff {s : String} {length : Nat} :
    (∃ c, ofHex s length = .ok c) ↔ WritesCode s length := by
  constructor
  · rintro ⟨c, hc⟩
    have hnumbers := map_digitNumber?_of_ofHex hc
    obtain ⟨-, rfl, hsize, hpadding⟩ := ofHex_eq_ok_iff_toHex.mp hc
    refine ⟨?_, ?_, ?_⟩
    · have hlength := congrArg List.length hnumbers
      rwa [List.length_map, List.length_map, Hex.length_digitNumbers, hsize, String.length_toList]
        at hlength
    · intro d hd
      have hmem : Hex.digitNumber? d ∈ (Hex.digitNumbers c.bytes).map some :=
        hnumbers ▸ List.mem_map_of_mem hd
      obtain ⟨n, -, hn⟩ := List.mem_map.mp hmem
      exact ⟨n, hn.symm⟩
    · intro place hle
      rw [digitBit?_eq_getElem? hnumbers]
      exact forall_mem_drop_iff.mp hpadding place hle
  · rintro ⟨hsize, hdigits, hpadding⟩
    obtain ⟨numbers, hnumbers⟩ : ∃ numbers : List Nat,
        s.toList.map Hex.digitNumber? = numbers.map some := by
      refine ⟨s.toList.map fun d => (Hex.digitNumber? d).getD 0, ?_⟩
      rw [List.map_map]
      refine List.map_congr_left fun d hd => ?_
      obtain ⟨n, hn⟩ := hdigits d hd
      simp [hn]
    have hlength : numbers.length = 2 * byteCount length := by
      have hmap := congrArg List.length hnumbers
      rwa [List.length_map, List.length_map, String.length_toList, hsize, eq_comm] at hmap
    have hsmall : ∀ n ∈ numbers, n < 16 := by
      intro n hn
      have hmem : some n ∈ s.toList.map Hex.digitNumber? := hnumbers ▸ List.mem_map_of_mem hn
      obtain ⟨d, -, hd⟩ := List.mem_map.mp hmem
      exact (Hex.digitNumber?_eq_some_iff.mp hd).1
    obtain ⟨bytes, rfl⟩ := Hex.exists_digitNumbers hlength hsmall
    refine ⟨⟨bytes, length⟩, ofHex_eq_ok_iff_toHex.mpr
      ⟨Hex.encode_eq_toLower_iff.mpr hnumbers, rfl, ?_, ?_⟩⟩
    · rw [Hex.length_digitNumbers] at hlength
      exact Nat.eq_of_mul_eq_mul_left (by decide) hlength
    · rw [forall_mem_drop_iff]
      intro place hle
      rw [← digitBit?_eq_getElem? hnumbers]
      exact hpadding place hle

/-- An accepted code has the bits that its digits show. -/
theorem bit_of_ofHex {s : String} {length : Nat} {c : Code} (h : ofHex s length = .ok c)
    {place : Nat} (hlt : place < length) :
    ∃ b, digitBit? s place = some b ∧ c.bit place = .ok (some b) := by
  have hnumbers := map_digitNumber?_of_ofHex h
  obtain ⟨-, rfl, hwell⟩ := ofHex_eq_ok_iff_toHex.mp h
  obtain ⟨bits, rfl⟩ := hwell.exists_bits
  rw [length_ofBits] at hlt
  refine ⟨bits[place], ?_, ?_⟩
  · rw [digitBit?_eq_getElem? hnumbers, ofBits, unpack_pack, List.getElem?_append_left hlt,
      List.getElem?_eq_getElem hlt]
  · rw [bit_ofBits, List.getElem?_eq_getElem hlt]

theorem exists_issue_of_ofHex {s : String} {length : Nat} {cause : Error}
    (h : ofHex s length = .error cause) : ∃ issue, cause = .validation issue := by
  unfold ofHex at h
  simp only at h
  split at h
  · cases h
    exact ⟨_, rfl⟩
  · split at h
    · cases h
      exact ⟨_, rfl⟩
    · cases h
      exact ⟨_, rfl⟩
    · split at h
      · cases h
        exact ⟨_, rfl⟩
      · cases h

/-! ## The number of digits -/

/-- How many bytes a code needs, in the arithmetic of words. -/
def wordByteCount? (length : UInt64) : Option UInt64 :=
  if length % 8 = 0 then some (length / 8) else Word.add? (length / 8) 1

/-- How many digits a code needs, in the arithmetic of words. -/
def digitCount? (length : UInt64) : Option UInt64 := do Word.mul? (← wordByteCount? length) 2

/-- The count of bytes is found in 64 bits, for the greatest length too. -/
theorem exists_wordByteCount? (length : UInt64) :
    ∃ count, wordByteCount? length = some count ∧ count.toNat = byteCount length.toNat := by
  have hlt := length.toNat_lt
  have hdiv : (length / 8).toNat = length.toNat / 8 := UInt64.toNat_div length 8
  have hmod : length % 8 = 0 ↔ length.toNat % 8 = 0 := by
    rw [← UInt64.toNat_inj, UInt64.toNat_mod]
    rfl
  have hone : (1 : UInt64).toNat = 1 := rfl
  rw [wordByteCount?, byteCount]
  by_cases h : length.toNat % 8 = 0
  · rw [if_pos (hmod.mpr h)]
    exact ⟨_, rfl, by omega⟩
  · obtain ⟨count, hcount, hsum⟩ := Word.exists_add? (x := length / 8) (y := 1) (by omega)
    rw [if_neg (mt hmod.mp h)]
    exact ⟨count, hcount, by omega⟩

/-- However long a code is, the number of its digits is a word. -/
theorem exists_digitCount? (length : UInt64) :
    ∃ count, digitCount? length = some count ∧ count.toNat = 2 * byteCount length.toNat := by
  have hlt := length.toNat_lt
  have htwo : (2 : UInt64).toNat = 2 := rfl
  obtain ⟨bytes, hbytes, hcount⟩ := exists_wordByteCount? length
  have hfits : bytes.toNat * (2 : UInt64).toNat < 2 ^ 64 := by
    rw [hcount, htwo, byteCount]
    omega
  obtain ⟨count, hproduct, hvalue⟩ := Word.exists_mul? hfits
  rw [digitCount?, hbytes]
  exact ⟨count, hproduct, by rw [hvalue, hcount, htwo, Nat.mul_comm]⟩

/-! ## Digits and codes -/

/-- The texts that are accepted as the digits of a code of a given length are those that write one,
and the code is the one that is written as the lower case of the text. Each digit stands for four of
its bits, and every code that is built is accepted as it is written. All other texts are refused with
a reason, such as those with a character of several bytes. The number of digits that are needed is
always a word. -/
theorem printed_codes_are_accepted (s : String) (length : Nat) :
    ((∃ c, ofHex s length = .ok c) ↔ WritesCode s length) ∧
    (∀ c, ofHex s length = .ok c ↔ c.toHex = s.toLower ∧ c.length = length ∧ c.Built) ∧
    (∀ c, ofHex s length = .ok c → ∀ i j, j < 4 → 4 * i + j < length →
      ∃ d n, s.toList[i]? = some d ∧ Hex.digitNumber? d = some n ∧
        c.bit (4 * i + j) = .ok (some (n.testBit (3 - j)))) ∧
    (∀ c : Code, c.Built → ofHex c.toHex c.length = .ok c) ∧
    (¬WritesCode s length → ∃ issue, ofHex s length = .error (.validation issue)) ∧
    (∀ d ∈ s.toList, 1 < d.utf8Size → ∃ issue, ofHex s length = .error (.validation issue)) ∧
    ∀ word : UInt64, ∃ count, digitCount? word = some count ∧
      count.toNat = 2 * byteCount word.toNat := by
  have hrefused : ¬WritesCode s length → ∃ issue, ofHex s length = .error (.validation issue) := by
    intro h
    cases hcode : ofHex s length with
    | ok c => exact absurd (exists_ofHex_iff.mp ⟨c, hcode⟩) h
    | error cause =>
      obtain ⟨issue, rfl⟩ := exists_issue_of_ofHex hcode
      exact ⟨issue, rfl⟩
  refine ⟨exists_ofHex_iff, fun c => ?_, ?_, ?_, hrefused, ?_, exists_digitCount?⟩
  · rw [built_iff_wellFormed, ofHex_eq_ok_iff_toHex]
  · intro c hc i j hj hlt
    obtain ⟨b, hdigit, hbit⟩ := bit_of_ofHex hc hlt
    have hquotient : (4 * i + j) / 4 = i := by omega
    have hremainder : (4 * i + j) % 4 = j := by omega
    rw [digitBit?, hquotient, hremainder] at hdigit
    obtain ⟨d, hd, hrest⟩ := Option.bind_eq_some_iff.mp hdigit
    obtain ⟨n, hnumber, hvalue⟩ := Option.bind_eq_some_iff.mp hrest
    cases hvalue
    exact ⟨d, n, hd, hnumber, hbit⟩
  · intro c hc
    rw [ofHex_eq_ok_iff, toHex, Hex.encode_encode, Hex.decode_digitBytes]
    exact ⟨rfl, rfl, hc.wellFormed⟩
  · intro d hd hwide
    refine hrefused fun h => ?_
    obtain ⟨n, hn⟩ := h.digits d hd
    have hascii : ¬d.toNat < 128 := by
      intro hlt
      have hsize := Char.utf8Size_eq_one_iff.mpr (Nat.le_of_lt_succ hlt)
      omega
    rw [Hex.digitNumber?_of_not_ascii hascii] at hn
    cases hn

/-- Thirteen bits in digits of both cases. With another digit at the end they are refused, and so is a
letter that has two bytes in place of two digits. -/
theorem printed_codes_are_accepted_of_mixed_case : ∃ c, ofHex "B0f8" 13 = .ok c ∧
    c.toHex = "B0f8".toLower ∧ c.bit 9 = .ok (some (Nat.testBit 15 2)) ∧
    ofHex c.toHex c.length = .ok c ∧
    (∃ issue, ofHex "B0fc" 13 = .error (.validation issue)) ∧
    ∃ issue, ofHex "é" 8 = .error (.validation issue) := by
  have hcode : ofHex "B0f8" 13 = .ok ⟨[0xb0, 0xf8], 13⟩ := by decide +kernel
  have hstray : (ofHex "B0fc" 13).toOption = none := by decide +kernel
  obtain ⟨-, hprinted, hbits, hread, -⟩ := printed_codes_are_accepted "B0f8" 13
  obtain ⟨hlower, -, hbuilt⟩ := (hprinted _).mp hcode
  obtain ⟨d, n, hd, hn, hbit⟩ := hbits _ hcode 2 1 (by decide) (by decide)
  obtain ⟨haccepted, -, -, -, hrefused, -⟩ := printed_codes_are_accepted "B0fc" 13
  obtain ⟨-, -, -, -, -, hwide, -⟩ := printed_codes_are_accepted "é" 8
  obtain rfl : 'f' = d := Option.some.inj hd
  obtain rfl : 15 = n := Option.some.inj hn
  refine ⟨_, hcode, hlower, hbit, hread _ hbuilt, hrefused fun h => ?_, hwide 'é' (by decide) (by decide)⟩
  obtain ⟨c, hc⟩ := haccepted.mpr h
  rw [hc] at hstray
  cases hstray

end SignHash.Code
