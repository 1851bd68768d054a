import SignHash.Utf8

/-!
# Texts and their bytes

`Utf8.decode?` is defined exactly on the UTF-8 forms of texts, and every text has one form. A byte
below 128 stands for the character of that number wherever it occurs.
-/

namespace SignHash.Utf8

theorem encode_eq_flatMap (s : String) : encode s = s.toList.flatMap String.utf8EncodeChar := by
  have h : s.toByteArray = s.toList.utf8Encode := by
    conv => lhs; rw [← String.ofList_toList (s := s)]
    rfl
  rw [encode, String.toUTF8_eq_toByteArray, h, List.utf8Encode]
  simp

@[simp] theorem encode_append (s t : String) : encode (s ++ t) = encode s ++ encode t := by
  simp only [encode_eq_flatMap, String.toList_append, List.flatMap_append]

theorem length_encode (s : String) : (encode s).length = byteCount s := by
  rw [encode, Array.length_toList]
  rfl

/-- Different texts have different bytes. -/
theorem encode_injective {s t : String} (h : encode s = encode t) : s = t := by
  apply String.toByteArray_inj.mp
  apply ByteArray.ext
  exact Array.toList_inj.mp h

/-- The texts that decode are those that encode, with nothing to choose. -/
theorem decode?_eq_some_iff {bytes : Bytes} {s : String} :
    decode? bytes = some s ↔ bytes = encode s := by
  unfold decode? String.fromUTF8?
  constructor
  · intro h
    split at h
    · next valid =>
      cases h
      simp [encode, String.fromUTF8]
    · cases h
  · rintro rfl
    have hbytes : (⟨(encode s).toArray⟩ : ByteArray) = s.toByteArray := by simp [encode]
    rw [hbytes, dif_pos s.isValidUTF8]
    rfl

@[simp] theorem decode?_encode (s : String) : decode? (encode s) = some s :=
  decode?_eq_some_iff.mpr rfl

/-- Bytes that cannot be decoded are those of no text. -/
theorem decode?_eq_none_iff {bytes : Bytes} :
    decode? bytes = none ↔ ∀ s, bytes ≠ encode s := by
  rw [Option.eq_none_iff_forall_ne_some]
  exact forall_congr' fun s => not_congr decode?_eq_some_iff

/-- A byte of seven bits stands for its own character, and is part of no other. -/
theorem mem_utf8EncodeChar_iff {b : UInt8} (ascii : b < 128) {c : Char} :
    b ∈ String.utf8EncodeChar c ↔ c.toNat = b.toNat := by
  have hb : b.toNat < 128 := ascii
  have hc : c.val.toNat = c.toNat := rfl
  -- a form of several bytes has none below 128, and the other forms are one byte
  fun_cases String.utf8EncodeChar with
  | case1 v hv =>
    rw [List.mem_singleton, ← UInt8.toNat_inj, UInt8.toNat_ofNat']
    omega
  | case2 v _ hv | case3 v _ _ hv | case4 v _ _ hv =>
    simp only [List.mem_cons, List.not_mem_nil, ← UInt8.toNat_inj, UInt8.toNat_ofNat', or_false]
    omega

theorem mem_encode_iff {b : UInt8} (ascii : b < 128) {s : String} :
    b ∈ encode s ↔ ∃ c ∈ s.toList, c.toNat = b.toNat := by
  rw [encode_eq_flatMap, List.mem_flatMap]
  constructor
  · rintro ⟨c, hc, hb⟩
    exact ⟨c, hc, (mem_utf8EncodeChar_iff ascii).mp hb⟩
  · rintro ⟨c, hc, hb⟩
    exact ⟨c, hc, (mem_utf8EncodeChar_iff ascii).mpr hb⟩

end SignHash.Utf8
