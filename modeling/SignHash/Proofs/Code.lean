import SignHash.Code.Distance
import SignHash.Code.Json
import SignHash.Encoder
import SignHash.Json.Reader
import SignHash.Proofs.Hex
import SignHash.Proofs.Packing

/-!
# Well-formed codes

A code is well formed if it has the bytes that its length needs and no bit set beyond its end. These
are the codes of bit sequences, and all that is built from bits, digits, a number or a descriptor is
one of them; what is read from a document need not be. On well-formed codes no reader looks for a
byte that is not there, and codes of the same bits are the same.
-/

namespace SignHash

namespace Code

/-- What holds of a code that is built: it has as many bytes as its length needs, and all bits beyond
its end are zero. -/
structure WellFormed (c : Code) : Prop where
  size : c.bytes.length = byteCount c.length
  padding : ∀ b ∈ (unpack c.bytes).drop c.length, b = false

theorem wellFormed_ofBits (bits : List Bool) : (ofBits bits).WellFormed := by
  constructor
  · exact length_pack bits
  · intro b hb
    rw [ofBits, unpack_pack, List.drop_left] at hb
    exact List.eq_of_mem_replicate hb

/-- Bytes of the right count, with zeros behind the bits, are packed from the bits. -/
theorem WellFormed.exists_bits {c : Code} (h : c.WellFormed) : ∃ bits, c = ofBits bits := by
  let bits := (unpack c.bytes).take c.length
  have hlength : bits.length = c.length := by
    have hsize := h.size
    simp only [bits, List.length_take, length_unpack, byteCount] at hsize ⊢
    omega
  have hrest : (unpack c.bytes).drop c.length =
      List.replicate (8 * byteCount bits.length - bits.length) false := by
    refine List.eq_replicate_iff.mpr ⟨?_, h.padding⟩
    rw [List.length_drop, length_unpack, h.size, hlength]
  have hbytes : c.bytes = pack bits := by
    apply unpack_injective
    rw [unpack_pack, ← hrest, List.take_append_drop]
  exact ⟨bits, by rw [ofBits, ← hbytes, hlength]⟩

/-! ## Readers -/

@[simp] theorem length_ofBits (bits : List Bool) : (ofBits bits).length = bits.length := rfl

@[simp] theorem toBits_ofBits (bits : List Bool) : (ofBits bits).toBits = .ok bits := by
  have hheld : bits.length ≤ (unpack (pack bits)).length := by simp [unpack_pack]
  rw [toBits, ofBits, if_pos hheld, unpack_pack, List.take_left]

@[simp] theorem bit_ofBits (bits : List Bool) (i : Nat) : (ofBits bits).bit i = .ok bits[i]? := by
  rw [bit, length_ofBits]
  by_cases hi : i < bits.length
  · have hbits : (unpack (pack bits))[i]? = some bits[i] := by
      rw [unpack_pack, List.getElem?_append_left hi, List.getElem?_eq_getElem hi]
    rw [getElem?_unpack, Option.map_eq_some_iff] at hbits
    obtain ⟨b, hb, hbit⟩ := hbits
    rw [if_pos hi, ofBits, hb, List.getElem?_eq_getElem hi, ← hbit]
  · rw [if_neg hi, List.getElem?_eq_none (Nat.le_of_not_lt hi)]

theorem toNat?_ofBits (bits : List Bool) :
    (ofBits bits).toNat? = .ok (if bits.length ≤ wordBits then some (bitsNumber bits) else none) := by
  rw [toNat?, length_ofBits, toBits_ofBits]
  split <;> rfl

/-- Codes of one length that are built from bits have bytes to compare. -/
theorem exists_hammingDistance_ofBits {bits bits' : List Bool} (h : bits.length = bits'.length) :
    ∃ n, (ofBits bits).hammingDistance (ofBits bits') = .ok n := by
  have hlength : (ofBits bits).length = (ofBits bits').length := h
  have hbytes : (ofBits bits).bytes.length = (ofBits bits').bytes.length := by simp [ofBits, h]
  rw [hammingDistance, hammingDistanceBy, if_neg (not_not_intro hlength), differingBits,
    if_neg (not_not_intro hbytes)]
  exact ⟨_, rfl⟩

/-! ## Digits -/

/-- The mask has the low bits of the last byte that no place of the code falls on. -/
theorem toNat_paddingMask (length : Nat) :
    (paddingMask length).toNat = 2 ^ (8 * byteCount length - length) - 1 := by
  rw [paddingMask]
  by_cases h : length % 8 = 0
  · have hunused : 8 * byteCount length - length = 0 := by rw [byteCount]; omega
    rw [if_pos h, hunused]
    rfl
  · have hunused : 8 * byteCount length - length = 8 - length % 8 := by rw [byteCount]; omega
    have hlt : 2 ^ (8 - length % 8) ≤ 2 ^ 8 := Nat.pow_le_pow_right (by decide) (by omega)
    have hpos : 0 < 2 ^ (8 - length % 8) := Nat.two_pow_pos _
    rw [if_neg h, hunused, Nat.shiftLeft_eq, Nat.one_mul, UInt8.toNat_ofNat', Nat.mod_eq_of_lt]
    omega

/-- The mask of the last byte finds a bit beyond the end exactly if there is one. -/
theorem hasStrayBits_eq_false_iff {c : Code} (size : c.bytes.length = byteCount c.length) :
    c.hasStrayBits = false ↔ ∀ b ∈ (unpack c.bytes).drop c.length, b = false := by
  rcases List.eq_nil_or_concat c.bytes with hnil | ⟨front, last, hbytes⟩
  · simp [hasStrayBits, hnil]
  · have hlast : c.bytes.getLast? = some last := by simp [hbytes]
    have hcount : byteCount c.length = front.length + 1 := by simp [← size, hbytes]
    have hfront : 8 * front.length ≤ c.length := by rw [byteCount] at hcount; omega
    have hunused : 8 - (c.length - 8 * front.length) = 8 * byteCount c.length - c.length := by omega
    have hdrop : (unpack c.bytes).drop c.length =
        numberBits (8 * byteCount c.length - c.length) last.toNat := by
      rw [hbytes, List.concat_eq_append, unpack_append, List.drop_append, length_unpack,
        List.drop_of_length_le (by simpa using hfront), unpack_cons, unpack_nil, List.append_nil,
        List.nil_append, drop_numberBits, hunused]
    have hmask : (last &&& paddingMask c.length).toNat =
        last.toNat % 2 ^ (8 * byteCount c.length - c.length) := by
      rw [UInt8.toNat_and, toNat_paddingMask, Nat.and_two_pow_sub_one_eq_mod]
    rw [hdrop, ← bitsNumber_eq_zero_iff, bitsNumber_numberBits, ← hmask, hasStrayBits, hlast]
    simp only [bne_eq_false_iff_eq]
    exact UInt8.toNat_inj.symm

/-- Digits are accepted if they can be read as the bytes of a well-formed code. -/
theorem ofHex_eq_ok_iff {digits : String} {length : Nat} {c : Code} :
    ofHex digits length = .ok c ↔
      Hex.decode (Utf8.encode digits) = .ok c.bytes ∧ c.length = length ∧ c.WellFormed := by
  unfold ofHex
  simp only
  constructor
  · intro h
    split at h
    · cases h
    · next hgiven =>
      split at h
      · cases h
      · cases h
      · next bytes hbytes =>
        split at h
        · cases h
        · next hstray =>
          cases h
          have hlength := Hex.length_of_decode hbytes
          have hdigits : (Utf8.encode digits).length = 2 * byteCount length :=
            Decidable.not_not.mp hgiven
          have hsize : bytes.length = byteCount length := by omega
          exact ⟨hbytes, rfl, hsize,
            (hasStrayBits_eq_false_iff hsize).mp (Bool.eq_false_iff.mpr hstray)⟩
  · rintro ⟨hbytes, rfl, hsize, hpadding⟩
    have hgiven : Utf8.byteCount digits = 2 * byteCount c.length := by
      rw [← Utf8.length_encode, Hex.length_of_decode hbytes, hsize]
    have hstray := (hasStrayBits_eq_false_iff hsize).mpr hpadding
    rw [if_neg (not_not_intro hgiven), hbytes]
    show (if c.hasStrayBits then _ else _) = _
    rw [hstray]
    rfl

/-! ## Numbers -/

/-- A number is accepted if it fits into at most 64 bits. -/
theorem ofNat_eq_ok_iff {value length : Nat} {c : Code} :
    ofNat value length = .ok c ↔
      (length ≤ 64 ∧ value < 2 ^ length) ∧ c = ofBits (numberBits length value) := by
  rw [ofNat, Nat.one_shiftLeft]
  by_cases h : wordBits < length ∨ 2 ^ length ≤ value
  · rw [if_pos h]
    have hfits : ¬(length ≤ 64 ∧ value < 2 ^ length) := by
      rintro ⟨hle, hlt⟩
      rcases h with h | h
      · exact absurd hle (Nat.not_le.mpr h)
      · exact absurd hlt (Nat.not_lt.mpr h)
    simp [hfits]
  · rw [if_neg h]
    rw [not_or, Nat.not_lt, Nat.not_le] at h
    have hfits : length ≤ 64 ∧ value < 2 ^ length := h
    rw [and_iff_right hfits, Except.ok.injEq, eq_comm]

/-! ## Ways to build a code -/

theorem wellFormed_of_ofHex {digits : String} {length : Nat} {c : Code}
    (h : ofHex digits length = .ok c) : c.WellFormed := (ofHex_eq_ok_iff.mp h).2.2

theorem wellFormed_of_ofNat {value length : Nat} {c : Code} (h : ofNat value length = .ok c) :
    c.WellFormed := by
  obtain ⟨-, rfl⟩ := ofNat_eq_ok_iff.mp h
  exact wellFormed_ofBits _

theorem wellFormed_of_encode {e : Encoder} {d : Descriptor} {c : Code} (h : e.encode d = .ok c) :
    c.WellFormed := by
  rw [Encoder.encode, Encoder.encodeComponents] at h
  split at h
  · next code hcode =>
    cases h
    split at hcode
    · split at hcode
      · cases hcode
        exact wellFormed_ofBits _
      · cases hcode
    · cases hcode
  · cases h

/-- The codes that are built: from bits, from digits, from a number, or as the code of a descriptor. -/
inductive Built : Code → Prop where
  | ofBits (bits : List Bool) : Built (ofBits bits)
  | ofHex {digits : String} {length : Nat} {c : Code} (h : Code.ofHex digits length = .ok c) : Built c
  | ofNat {value length : Nat} {c : Code} (h : Code.ofNat value length = .ok c) : Built c
  | encode {e : Encoder} {d : Descriptor} {c : Code} (h : e.encode d = .ok c) : Built c

theorem Built.wellFormed {c : Code} (h : c.Built) : c.WellFormed := by
  cases h with
  | ofBits bits => exact wellFormed_ofBits bits
  | ofHex h => exact wellFormed_of_ofHex h
  | ofNat h => exact wellFormed_of_ofNat h
  | encode h => exact wellFormed_of_encode h

theorem Built.exists_bits {c : Code} (h : c.Built) : ∃ bits, c = Code.ofBits bits :=
  h.wellFormed.exists_bits

/-- The ways to build a code keep its bytes in form, and come to every code that is in form. -/
theorem built_iff_wellFormed {c : Code} : c.Built ↔ c.WellFormed := by
  constructor
  · exact Built.wellFormed
  · intro h
    obtain ⟨bits, rfl⟩ := h.exists_bits
    exact .ofBits bits

/-! ## Codes in documents -/

/-- The record of a code, as it is read. -/
def record (c : Code) : Json.Value :=
  .object
    [(some "bytes", .array (c.bytes.map fun b => .number ⟨false, b.toNat, 0, true⟩)),
      (some "len", .number ⟨false, c.length, 0, true⟩)]

theorem mapM_asByte? (bytes : Bytes) :
    (bytes.map fun b => Json.Value.number ⟨false, b.toNat, 0, true⟩).mapM Json.Value.asByte? =
      some bytes := by
  induction bytes with
  | nil => rfl
  | cons b bytes ih =>
    have hbyte : Json.Value.asByte? (.number ⟨false, b.toNat, 0, true⟩) = some b := by
      simp [Json.Value.asByte?, Json.Value.asNat?, b.toNat_lt]
    rw [List.map_cons, List.mapM_cons, hbyte, ih]
    rfl

/-- A record is read whatever its bytes and its length are. -/
theorem ofJson?_record {c : Code} (word : c.length < 2 ^ 64) : ofJson? c.record = some c := by
  have hfields : c.record.asFields? ["bytes", "len"] =
      some [some (.array (c.bytes.map fun b => .number ⟨false, b.toNat, 0, true⟩)),
        some (.number ⟨false, c.length, 0, true⟩)] := rfl
  have hlength : Json.Value.asWord? (.number ⟨false, c.length, 0, true⟩) = some c.length := by
    simpa [Json.Value.asWord?, Json.Value.asNat?] using word
  have hbytes := mapM_asByte? c.bytes
  simp [ofJson?, hfields, Json.Value.required, Json.Value.asList?, hbytes, hlength]

/-! ## What holds of codes -/

/-- The codes that are built are those that are well formed. Every reader of them finds the bits that
it looks for, those of one length can be compared, and those of the same bits are the same. A
document gives these and all others: its bytes need not go with its length. -/
theorem readers_find_bits (a b : Code) :
    (a.Built ↔ a.WellFormed) ∧
    (a.length < 2 ^ 64 → ofJson? a.record = some a) ∧
    (a.Built → b.Built →
      (∃ bits : List Bool, bits.length = a.length ∧ a.toBits = .ok bits ∧
        (∀ i, a.bit i = .ok bits[i]?) ∧
        a.toNat? = .ok (if a.length ≤ 64 then some (bitsNumber bits) else none)) ∧
      (a.length = b.length → ∃ n, a.hammingDistance b = .ok n) ∧
      (a.toBits = b.toBits → a = b)) := by
  refine ⟨built_iff_wellFormed, ofJson?_record, ?_⟩
  intro ha hb
  obtain ⟨bits, rfl⟩ := ha.exists_bits
  obtain ⟨bits', rfl⟩ := hb.exists_bits
  refine ⟨⟨bits, rfl, toBits_ofBits bits, bit_ofBits bits, toNat?_ofBits bits⟩, ?_, ?_⟩
  · intro hlength
    exact exists_hammingDistance_ofBits hlength
  · intro hbits
    rw [toBits_ofBits, toBits_ofBits] at hbits
    rw [Except.ok.inj hbits]

/-- Nine bits, from digits of both cases and from a list, and the other of them. -/
theorem readers_find_bits_of_nine : ∃ a b : Code, ofHex "b080" 9 = .ok a ∧
    ofBits [true, false, true, true, false, false, false, false, false] = b ∧
    (∃ bits : List Bool, bits.length = 9 ∧ a.toBits = .ok bits) ∧
    ∃ n, a.hammingDistance b = .ok n := by
  have ha : ofHex "b080" 9 = .ok ⟨[0xb0, 0x80], 9⟩ := by decide +kernel
  obtain ⟨⟨bits, hlength, hbits, -, -⟩, hdistance, -⟩ :=
    (readers_find_bits _ _).2.2 (.ofHex ha)
      (.ofBits [true, false, true, true, false, false, false, false, false])
  exact ⟨_, _, ha, rfl, ⟨bits, hlength, hbits⟩, hdistance rfl⟩

/-- A document gives a code of five bits without a byte for them. -/
theorem ofJson?_unsound :
    (Json.Value.ofString? "\x7b\"bytes\":[],\"len\":5\x7d").bind ofJson? = some ⟨[], 5⟩ ∧
      ¬WellFormed ⟨[], 5⟩ ∧ bit ⟨[], 5⟩ 0 = .error .bitOutOfRange := by
  refine ⟨by decide +kernel, fun h => ?_, rfl⟩
  have hsize := h.size
  simp [byteCount] at hsize

end Code

end SignHash
