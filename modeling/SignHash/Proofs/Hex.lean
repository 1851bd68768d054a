import SignHash.Hex
import SignHash.Proofs.Utf8

/-!
# Hexadecimal digits of byte strings

A text is read as hexadecimal digits if there are two characters for each byte and all of them are
digits, of either case; the numbers of the digits are then the halves of the bytes. So what is written
in hexadecimal digits is read back, and two byte strings never have the same digits.
-/

namespace SignHash.Hex

/-! ## Digits as bytes -/

/-- The byte of a digit. -/
def digitByte (n : Nat) : UInt8 := UInt8.ofNat (digit n).toNat

/-- The bytes of the digits of a byte string. -/
def digitBytes (bytes : Bytes) : Bytes :=
  bytes.flatMap fun b => [digitByte (b.toNat / 16), digitByte (b.toNat % 16)]

theorem utf8EncodeChar_digit {n : Nat} (h : n < 16) :
    String.utf8EncodeChar (digit n) = [digitByte n] := by
  have hall : ∀ n : Fin 16, String.utf8EncodeChar (digit n) = [digitByte n] := by decide
  exact hall ⟨n, h⟩

theorem digitValue?_digitByte {n : Nat} (h : n < 16) : digitValue? (digitByte n) = some n := by
  have hall : ∀ n : Fin 16, digitValue? (digitByte n) = some n.val := by decide
  exact hall ⟨n, h⟩

/-- Each digit is one byte. -/
theorem encode_encode (bytes : Bytes) : Utf8.encode (encode bytes) = digitBytes bytes := by
  rw [Utf8.encode_eq_flatMap, encode, String.toList_ofList, digitBytes]
  induction bytes with
  | nil => rfl
  | cons b bytes ih =>
    have hb := b.toNat_lt
    rw [List.flatMap_cons, List.flatMap_append, ih, List.flatMap_cons, digits, List.flatMap_cons,
      List.flatMap_singleton, utf8EncodeChar_digit (by omega), utf8EncodeChar_digit (by omega)]
    rfl

@[simp] theorem length_digitBytes (bytes : Bytes) :
    (digitBytes bytes).length = 2 * bytes.length := by
  induction bytes with
  | nil => rfl
  | cons b bytes ih =>
    rw [digitBytes, List.flatMap_cons, List.length_append, ← digitBytes, ih, List.length_cons]
    simp only [List.length_cons, List.length_nil]
    omega

theorem exists_digitValue?_of_mem {b : UInt8} {bytes : Bytes} (h : b ∈ digitBytes bytes) :
    ∃ n, digitValue? b = some n := by
  obtain ⟨c, -, hb⟩ := List.mem_flatMap.mp h
  have hc := c.toNat_lt
  simp only [List.mem_cons, List.not_mem_nil, or_false] at hb
  rcases hb with rfl | rfl
  · exact ⟨_, digitValue?_digitByte (by omega)⟩
  · exact ⟨_, digitValue?_digitByte (by omega)⟩

/-! ## Numbers of digits -/

/-- The numbers that the digits of a byte string stand for. -/
def digitNumbers (bytes : Bytes) : List Nat := bytes.flatMap fun b => [b.toNat / 16, b.toNat % 16]

theorem digitNumbers_cons (b : UInt8) (bytes : Bytes) :
    digitNumbers (b :: bytes) = b.toNat / 16 :: b.toNat % 16 :: digitNumbers bytes := rfl

@[simp] theorem length_digitNumbers (bytes : Bytes) :
    (digitNumbers bytes).length = 2 * bytes.length := by
  induction bytes with
  | nil => rfl
  | cons b bytes ih =>
    rw [digitNumbers_cons, List.length_cons, List.length_cons, List.length_cons, ih]
    omega

theorem digitNumbers_lt {n : Nat} {bytes : Bytes} (h : n ∈ digitNumbers bytes) : n < 16 := by
  obtain ⟨b, -, hn⟩ := List.mem_flatMap.mp h
  have hb := b.toNat_lt
  simp only [List.mem_cons, List.not_mem_nil, or_false] at hn
  omega

theorem ofNat_halves (b : UInt8) : UInt8.ofNat (16 * (b.toNat / 16) + b.toNat % 16) = b := by
  rw [Nat.div_add_mod, UInt8.ofNat_toNat]

/-- Any numbers below sixteen, an even count of them, are the halves of some bytes. -/
theorem exists_digitNumbers {numbers : List Nat} {count : Nat} (size : numbers.length = 2 * count)
    (small : ∀ n ∈ numbers, n < 16) : ∃ bytes : Bytes, digitNumbers bytes = numbers := by
  induction count generalizing numbers with
  | zero =>
    obtain rfl := List.eq_nil_of_length_eq_zero size
    exact ⟨[], rfl⟩
  | succ count ih =>
    rcases numbers with _ | ⟨high, _ | ⟨low, rest⟩⟩
    · cases size
    · simp at size
      omega
    · have hhigh : high < 16 := small high (by simp)
      have hlow : low < 16 := small low (by simp)
      have hrest : rest.length = 2 * count := by simp at size; omega
      have hbyte : (UInt8.ofNat (16 * high + low)).toNat = 16 * high + low := by
        rw [UInt8.toNat_ofNat', Nat.mod_eq_of_lt (by omega)]
      obtain ⟨bytes, rfl⟩ := ih hrest fun n hn => small n (by simp [hn])
      refine ⟨UInt8.ofNat (16 * high + low) :: bytes, ?_⟩
      rw [digitNumbers_cons, hbyte]
      congr 2 <;> omega

/-- The digits that are written for bytes stand for their halves. -/
theorem map_digitValue?_digitBytes (bytes : Bytes) :
    (digitBytes bytes).map digitValue? = (digitNumbers bytes).map some := by
  induction bytes with
  | nil => rfl
  | cons b bytes ih =>
    have hb := b.toNat_lt
    have hhigh := digitValue?_digitByte (n := b.toNat / 16) (by omega)
    have hlow := digitValue?_digitByte (n := b.toNat % 16) (by omega)
    rw [digitBytes, List.flatMap_cons, ← digitBytes, digitNumbers_cons]
    simp only [List.cons_append, List.nil_append, List.map_cons, hhigh, hlow, ih]

/-! ## Reading -/

theorem digitValue?_lt {b : UInt8} {n : Nat} (h : digitValue? b = some n) : n < 16 := by
  rw [digitValue?] at h
  split at h
  · next hdigit =>
    have hle : b.toNat ≤ 57 := hdigit.2
    cases h
    omega
  · split at h
    · next hdigit =>
      have hle : b.toNat ≤ 102 := hdigit.2
      cases h
      omega
    · split at h
      · next hdigit =>
        have hle : b.toNat ≤ 70 := hdigit.2
        cases h
        omega
      · cases h

/-- What is decoded has the values of the digits as its halves. -/
theorem map_of_decodeFrom {position : Nat} {text bytes : Bytes}
    (h : decodeFrom position text = .ok bytes) :
    text.map digitValue? = (digitNumbers bytes).map some := by
  fun_induction decodeFrom position text generalizing bytes with
  | case1 => cases h; rfl
  | case2 => cases h
  | case3 position high low rest ih =>
    cases hhigh : digitValue? high with
    | none => rw [readDigit, hhigh] at h; cases h
    | some n =>
      cases hlow : digitValue? low with
      | none => rw [readDigit, readDigit, hhigh, hlow] at h; cases h
      | some m =>
        cases hmore : decodeFrom (position + 2) rest with
        | error e => rw [readDigit, readDigit, hhigh, hlow, hmore] at h; cases h
        | ok more =>
          rw [readDigit, readDigit, hhigh, hlow, hmore] at h
          cases h
          have hn := digitValue?_lt hhigh
          have hm := digitValue?_lt hlow
          have hbyte : (UInt8.ofNat (16 * n + m)).toNat = 16 * n + m := by
            rw [UInt8.toNat_ofNat', Nat.mod_eq_of_lt (by omega)]
          have hdiv : (16 * n + m) / 16 = n := by omega
          have hmod : (16 * n + m) % 16 = m := by omega
          rw [digitNumbers_cons, hbyte, hdiv, hmod]
          simp only [List.map_cons, hhigh, hlow, ih hmore]

/-- Digits of either case are decoded to the bytes whose halves they stand for. -/
theorem decodeFrom_of_map {text bytes : Bytes} (position : Nat)
    (h : text.map digitValue? = (digitNumbers bytes).map some) :
    decodeFrom position text = .ok bytes := by
  induction bytes generalizing text position with
  | nil =>
    obtain rfl := List.map_eq_nil_iff.mp h
    rfl
  | cons b bytes ih =>
    rw [digitNumbers_cons, List.map_cons, List.map_cons] at h
    obtain ⟨high, _, rfl, hhigh, h⟩ := List.map_eq_cons_iff.mp h
    obtain ⟨low, rest, rfl, hlow, h⟩ := List.map_eq_cons_iff.mp h
    rw [decodeFrom, readDigit, readDigit, hhigh, hlow, ih (position + 2) h]
    exact congrArg (fun b => Except.ok (b :: bytes)) (ofNat_halves b)

/-- What can be read are the texts of digits, two for each byte. -/
theorem decode_eq_ok_iff {text bytes : Bytes} :
    decode text = .ok bytes ↔ text.map digitValue? = (digitNumbers bytes).map some := by
  rw [decode]
  constructor
  · intro h
    split at h
    · cases h
    · exact map_of_decodeFrom h
  · intro h
    have hlength := congrArg List.length h
    rw [List.length_map, List.length_map, length_digitNumbers] at hlength
    rw [if_neg (by omega), decodeFrom_of_map 0 h]

/-- So an odd number of digits is never decoded. -/
theorem length_of_decode {text bytes : Bytes} (h : decode text = .ok bytes) :
    text.length = 2 * bytes.length := by
  have hlength := congrArg List.length (decode_eq_ok_iff.mp h)
  rwa [List.length_map, List.length_map, length_digitNumbers] at hlength

/-- The digits that are written for bytes are decoded to them. -/
theorem decode_digitBytes (bytes : Bytes) : decode (digitBytes bytes) = .ok bytes :=
  decode_eq_ok_iff.mpr (map_digitValue?_digitBytes bytes)

theorem digitBytes_injective {a b : Bytes} (h : digitBytes a = digitBytes b) : a = b := by
  have ha := decode_digitBytes a
  rw [h, decode_digitBytes] at ha
  exact (Except.ok.inj ha).symm

/-! ## Digits as characters -/

/-- The number that a character stands for as a hexadecimal digit of either case. -/
def digitNumber? (c : Char) : Option Nat := "0123456789abcdef".toList.findIdx? (· == c.toLower)

/-- A number below sixteen has its digit in lower and in upper case, and no other. -/
theorem digitNumber?_eq_some_iff {c : Char} {n : Nat} :
    digitNumber? c = some n ↔ n < 16 ∧ c.toLower = digit n := by
  have hdigits : "0123456789abcdef".toList = (List.range 16).map digit := by decide
  have hinjective : ∀ m n : Fin 16, digit m = digit n → m = n := by decide
  simp only [digitNumber?, hdigits, List.findIdx?_eq_some_iff_getElem, List.getElem_map,
    List.getElem_range, List.length_map, List.length_range, beq_iff_eq]
  constructor
  · rintro ⟨hn, hdigit, -⟩
    exact ⟨hn, hdigit.symm⟩
  · rintro ⟨hn, hdigit⟩
    refine ⟨hn, hdigit.symm, fun m hm hother => ?_⟩
    have hsame := hinjective ⟨m, Nat.lt_trans hm hn⟩ ⟨n, hn⟩ (hother.trans hdigit)
    exact absurd (Fin.mk.inj hsame) (Nat.ne_of_lt hm)

theorem digitValue?_of_ascii {c : Char} (ascii : c.toNat < 128) :
    digitValue? (UInt8.ofNat c.toNat) = digitNumber? c := by
  have hall : ∀ n : Fin 128, digitValue? (UInt8.ofNat n) = digitNumber? (Char.ofNat n) := by
    decide +kernel
  have hc := hall ⟨c.toNat, ascii⟩
  rwa [Char.ofNat_toNat] at hc

/-- A byte of a longer character is never a digit. -/
theorem digitValue?_of_not_ascii {b : UInt8} (wide : ¬b < 128) : digitValue? b = none := by
  have hlt : ∀ c : UInt8, c < 128 → ¬b ≤ c := fun c hc hle => wide (UInt8.lt_of_le_of_lt hle hc)
  rw [digitValue?, if_neg fun h => hlt 57 (by decide) h.2, if_neg fun h => hlt 102 (by decide) h.2,
    if_neg fun h => hlt 70 (by decide) h.2]

theorem digitNumber?_of_not_ascii {c : Char} (wide : ¬c.toNat < 128) : digitNumber? c = none := by
  have hdigits : ∀ n : Fin 16, (digit n).toNat < 128 := by decide
  have hsame : c.toLower = c := by
    have hcapital : ¬(c.val ≥ 'A'.val ∧ c.val ≤ 'Z'.val) := by
      rintro ⟨-, hle⟩
      have hle' : c.toNat ≤ 90 := hle
      omega
    exact dif_neg hcapital
  rw [Option.eq_none_iff_forall_ne_some]
  intro n hn
  obtain ⟨hlt, hdigit⟩ := digitNumber?_eq_some_iff.mp hn
  have hascii := hdigits ⟨n, hlt⟩
  rw [hsame] at hdigit
  exact wide (hdigit ▸ hascii)

theorem utf8EncodeChar_of_ascii {c : Char} (ascii : c.toNat < 128) :
    String.utf8EncodeChar c = [UInt8.ofNat c.toNat] := by
  have hsize : c.utf8Size = 1 := by
    rw [Char.utf8Size, if_pos]
    exact Nat.le_of_lt_succ ascii
  exact String.utf8EncodeChar_eq_singleton hsize

/-- The bytes of a text are digits exactly if its characters are, and of the same numbers. -/
theorem map_digitValue?_encode {s : String} {numbers : List Nat} :
    (Utf8.encode s).map digitValue? = numbers.map some ↔
      s.toList.map digitNumber? = numbers.map some := by
  rw [Utf8.encode_eq_flatMap]
  generalize s.toList = chars
  induction chars generalizing numbers with
  | nil => rfl
  | cons c chars ih =>
    rw [List.flatMap_cons, List.map_append, List.map_cons]
    by_cases ascii : c.toNat < 128
    · rw [utf8EncodeChar_of_ascii ascii, List.map_singleton, digitValue?_of_ascii ascii]
      cases numbers with
      | nil => simp
      | cons n numbers => simp [ih]
    · -- none of the character's bytes is a digit, and there is at least one
      obtain ⟨b, bytes, hencoded⟩ := List.exists_cons_of_ne_nil (String.utf8EncodeChar_ne_nil (c := c))
      have hb : digitValue? b = none := by
        refine digitValue?_of_not_ascii fun hlt => ascii ?_
        rw [(Utf8.mem_utf8EncodeChar_iff hlt).mp (hencoded ▸ List.mem_cons_self)]
        exact hlt
      rw [hencoded, List.map_cons, hb, digitNumber?_of_not_ascii ascii]
      cases numbers <;> simp

theorem encode_eq_map_digit (bytes : Bytes) :
    encode bytes = String.ofList ((digitNumbers bytes).map digit) := by
  rw [encode, digitNumbers, List.map_flatMap]
  rfl

/-- The digits of a byte string are the lower case of a text exactly if the characters of the text are
digits of the same numbers. -/
theorem encode_eq_toLower_iff {bytes : Bytes} {s : String} :
    encode bytes = s.toLower ↔ s.toList.map digitNumber? = (digitNumbers bytes).map some := by
  have hsmall : ∀ n ∈ digitNumbers bytes, n < 16 := fun n hn => digitNumbers_lt hn
  have hlower : s.toLower.toList = s.toList.map Char.toLower := String.toList_map
  rw [encode_eq_map_digit, ← String.toList_inj, String.toList_ofList, hlower]
  generalize digitNumbers bytes = numbers at hsmall
  generalize s.toList = chars
  induction chars generalizing numbers with
  | nil => simp
  | cons c chars ih =>
    cases numbers with
    | nil => simp
    | cons n numbers =>
      have hn : n < 16 := hsmall n List.mem_cons_self
      have hhead : digit n = c.toLower ↔ digitNumber? c = some n := by
        rw [digitNumber?_eq_some_iff, eq_comm, and_iff_right hn]
      have hrest := ih numbers fun m hm => hsmall m (List.mem_cons_of_mem n hm)
      simp only [List.map_cons, List.cons.injEq, hhead, hrest]

end SignHash.Hex
