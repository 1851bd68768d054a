import SignHash.Frame.Writer
import SignHash.Proofs.Bytes

/-!
# Frames that are written

The content of a written frame is what was written: each block is stored as it is, and the reader
takes one block after the other until it meets the end mark.
-/

namespace SignHash.Frame

theorem readWord?_littleEndian {n : Nat} (h : n < 256 ^ 4) (rest : Bytes) :
    readWord? (littleEndian 4 n ++ rest) = some (n, rest) := by
  have hlen : (littleEndian 4 n).length = 4 := length_littleEndian 4 n
  rw [readWord?, List.take_left' hlen, List.drop_left' hlen]
  simp only [hlen, if_true, ofLittleEndian_littleEndian h]

theorem hasAtLeast_append (block rest : Bytes) : hasAtLeast block.length (block ++ rest) = true := by
  rw [hasAtLeast, Bool.or_eq_true]
  cases block with
  | nil => exact .inl rfl
  | cons b block =>
    right
    rw [Bool.not_eq_true', List.isEmpty_eq_false_iff, ← List.length_pos_iff, List.length_drop,
      List.length_append, List.length_cons]
    omega

/-- As many bytes are taken as a block announces, if it announces no more than is allowed. -/
theorem takeBlock_append {block : Bytes} (h : block.length ≤ writtenSettings.blockLimit)
    (rest : Bytes) : takeBlock writtenSettings block.length (block ++ rest) = some (block, rest) := by
  simp [takeBlock, hasAtLeast_append, writtenSettings]
  exact decide_eq_false (Nat.not_lt.mpr h)

/-- The bytes of a stored block are added to the content as they are. -/
theorem nextBlock_stored {block : Bytes} (h : block.length ≤ writtenSettings.blockLimit) (room : Room)
    (content : Array UInt8) (rest : Bytes) :
    nextBlock writtenSettings room content (storedBlock block ++ rest) =
      some (block.foldl Array.push content, rest) := by
  have hsize : storedBit + block.length < 256 ^ 4 := by
    have hlimit : writtenSettings.blockLimit = 65536 := rfl
    rw [hlimit] at h
    simp only [storedBit]
    omega
  rw [nextBlock, storedBlock, List.append_assoc, readWord?_littleEndian hsize]
  simp [takeBlock_append h, storedBit]

/-- No block is read behind the end mark. -/
theorem nextBlock_endMark (settings : Settings) (room : Room) (content : Array UInt8) :
    nextBlock settings room content endMark = none := by
  rw [nextBlock, endMark, ← List.append_nil (littleEndian 4 0), readWord?_littleEndian (by decide)]
  rfl

theorem toList_foldl_push (bytes : Bytes) (content : Array UInt8) :
    (bytes.foldl Array.push content).toList = content.toList ++ bytes := by
  induction bytes generalizing content with
  | nil => simp
  | cons b bytes ih => rw [List.foldl_cons, ih, Array.toList_push, List.append_assoc]; rfl

theorem readBlocks_endMark (settings : Settings) (fuel : Nat) (room : Room) (content : Array UInt8) :
    readBlocks settings fuel room content endMark = content := by
  cases fuel with
  | zero => rfl
  | succ fuel => simp only [readBlocks, nextBlock_endMark]

/-- Reading goes through as many blocks as were written, and stops at the end mark. -/
theorem readBlocks_blocks {count fuel : Nat} {bytes : Bytes} (hcount : bytes.length ≤ count)
    (hfuel : count ≤ fuel) (room : Room) (content : Array UInt8) :
    (readBlocks writtenSettings fuel room content (blocks count bytes ++ endMark)).toList =
      content.toList ++ bytes := by
  induction count generalizing fuel bytes room content with
  | zero =>
    rw [List.eq_nil_of_length_eq_zero (Nat.le_zero.mp hcount), blocks, List.nil_append,
      readBlocks_endMark, List.append_nil]
  | succ count ih =>
    by_cases hbytes : bytes = []
    · rw [hbytes, blocks, List.nil_append, readBlocks_endMark, List.append_nil]
      simp
    · obtain ⟨fuel, rfl⟩ : ∃ k, fuel = k + 1 := ⟨fuel - 1, by omega⟩
      have hpos : 0 < bytes.length := List.length_pos_iff.mpr hbytes
      have hlimit : writtenSettings.blockLimit = 65536 := rfl
      have htake : (bytes.take writtenSettings.blockLimit).length ≤ writtenSettings.blockLimit :=
        List.length_take_le _ _
      have hdrop : (bytes.drop writtenSettings.blockLimit).length ≤ count := by
        rw [List.length_drop, hlimit]
        omega
      -- a block that is written is not empty, so the reader does not stop at it
      have hgrown : ((bytes.take writtenSettings.blockLimit).foldl Array.push content).size ≠
          content.size := by
        rw [← Array.length_toList, toList_foldl_push, List.length_append, List.length_take, hlimit,
          ← Array.length_toList]
        omega
      rw [blocks, List.append_assoc, readBlocks, nextBlock_stored htake]
      · simp only [hgrown, if_false]
        rw [ih hdrop (by omega), toList_foldl_push, List.append_assoc, List.take_append_drop]
      · exact hbytes

/-- The header that is written announces the settings that blocks are written with. -/
theorem readHeader_header (rest : Bytes) :
    readHeader (header ++ rest) = some (writtenSettings, rest) := by
  have hsettings : readSettings (settingsBytes ++ headerCheck settingsBytes :: rest) =
      some (writtenSettings, rest) := by
    have hbits : Nat.testBit 96 1 = false ∧ Nat.testBit 96 3 = false ∧ Nat.testBit 96 4 = false ∧
        Nat.testBit 96 5 = true ∧ (64 : UInt8) &&& 143 = 0 := by decide
    obtain ⟨h1, h3, h4, h5, hsizes⟩ := hbits
    simp [readSettings, settingsBytes, blockLimit?, writtenSettings, h1, h3, h4, h5, hsizes]
  rw [readHeader, header, List.append_assoc, List.append_assoc]
  show (if magic = magic then readSettings _ else _) = _
  rw [if_pos rfl]
  exact hsettings

/-- Blocks take no fewer bytes than what they hold. -/
theorem length_le_length_blocks {count : Nat} {bytes : Bytes} (h : bytes.length ≤ count) :
    bytes.length ≤ (blocks count bytes).length := by
  induction count generalizing bytes with
  | zero => exact Nat.le_trans h (Nat.zero_le _)
  | succ count ih =>
    by_cases hbytes : bytes = []
    · rw [hbytes]
      exact Nat.zero_le _
    · have hpos : 0 < bytes.length := List.length_pos_iff.mpr hbytes
      have hlimit : writtenSettings.blockLimit = 65536 := rfl
      have hdrop : (bytes.drop writtenSettings.blockLimit).length ≤ count := by
        rw [List.length_drop, hlimit]
        omega
      have hrest := ih hdrop
      rw [blocks, storedBlock, List.length_append, List.length_append, List.length_take]
      · rw [List.length_drop] at hrest
        omega
      · exact hbytes

/-- What is written is what a reader gets, whatever the bytes. -/
theorem content_write (bytes : Bytes) : content (write bytes) = bytes := by
  have hfuel : bytes.length ≤ (header ++ (blocks bytes.length bytes ++ endMark)).length := by
    have hblocks := length_le_length_blocks (Nat.le_refl bytes.length)
    rw [List.length_append, List.length_append]
    omega
  rw [content, write, List.append_assoc, readHeader_header]
  simp only
  rw [readBlocks_blocks (Nat.le_refl _) hfuel]
  rfl

end SignHash.Frame
