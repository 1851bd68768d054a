import SignHash.Model.Record
import SignHash.Proofs.Frame
import SignHash.Proofs.Orthonormality
import SignHash.Proofs.Wire

/-!
# Models as bytes

`Model.ofBytes` accepts the encodings of models without issues and nothing else. A record is read
exactly if it was written; it describes a model exactly if it is the record of one; and a matrix is
back as it was after its rows are listed one after the other.
-/

namespace SignHash

open Wire

namespace ModelRecord

/-! ## Records -/

/-- A record can be written: its mark and its numbers have their widths, and so have the lengths of
its lists. -/
def Fits (r : ModelRecord) : Prop :=
  r.mark.length = 4 ∧ r.version < 256 ^ 4 ∧ r.dimension < 256 ^ 8 ∧ r.bitLength < 256 ^ 8 ∧
    ListFits r.mean ∧ ListFits r.projection ∧ ListFits r.rotation

theorem decodes_doubles : Decodes (readList readDouble) (writeList writeDouble) ListFits := by
  intro bytes xs rest
  rw [decodes_readList decodes_readDouble]
  simp

theorem decodes_read : Decodes read write Fits := by
  intro bytes r rest
  simp only [read, Option.bind_eq_bind, Option.bind_eq_some_iff]
  constructor
  · rintro ⟨⟨mark, _⟩, hmark, ⟨version, _⟩, hversion, ⟨dimension, _⟩, hdimension, ⟨bitLength, _⟩,
      hbitLength, ⟨normalize, _⟩, hnormalize, ⟨mean, _⟩, hmean, ⟨projection, _⟩, hprojection,
      ⟨rotation, _⟩, hrotation, hpair⟩
    obtain ⟨rfl, rfl⟩ := Prod.mk.injEq .. |>.mp (Option.some.inj hpair)
    obtain ⟨fmark, rfl⟩ := (decodes_readBytes 4 _ _ _).mp hmark
    obtain ⟨fversion, rfl⟩ := (decodes_readNat 4 _ _ _).mp hversion
    obtain ⟨fdimension, rfl⟩ := (decodes_readNat 8 _ _ _).mp hdimension
    obtain ⟨fbitLength, rfl⟩ := (decodes_readNat 8 _ _ _).mp hbitLength
    obtain ⟨-, rfl⟩ := (decodes_readBool _ _ _).mp hnormalize
    obtain ⟨fmean, rfl⟩ := (decodes_doubles _ _ _).mp hmean
    obtain ⟨fprojection, rfl⟩ := (decodes_doubles _ _ _).mp hprojection
    obtain ⟨frotation, rfl⟩ := (decodes_doubles _ _ _).mp hrotation
    exact ⟨⟨fmark, fversion, fdimension, fbitLength, fmean, fprojection, frotation⟩,
      by simp [write, writeWord]⟩
  · rintro ⟨⟨fmark, fversion, fdimension, fbitLength, fmean, fprojection, frotation⟩, rfl⟩
    simp only [write, writeWord, List.append_assoc]
    exact ⟨_, (decodes_readBytes 4).read_write fmark _, _, (decodes_readNat 4).read_write fversion _,
      _, (decodes_readNat 8).read_write fdimension _, _,
      (decodes_readNat 8).read_write fbitLength _, _, decodes_readBool.read_write trivial _, _,
      decodes_doubles.read_write fmean _, _, decodes_doubles.read_write fprojection _, _,
      decodes_doubles.read_write frotation _, rfl⟩

/-! ## Matrices -/

theorem get_matrixOfRows {m n : Nat} {entries : List Double} (h : entries.length = m * n) (i : Fin m)
    (j : Fin n) : entries[i.val * n + j.val]? = some ((matrixOfRows entries h).get i j) := by
  have hplace : i.val * n + j.val < entries.length := by
    rw [h]
    calc i.val * n + j.val < i.val * n + n := Nat.add_lt_add_left j.isLt _
      _ = (i.val + 1) * n := by rw [Nat.add_mul, Nat.one_mul]
      _ ≤ m * n := Nat.mul_le_mul_right n i.isLt
  rw [List.getElem?_eq_getElem hplace, matrixOfRows, DenseMatrix.get_ofFn]
  rfl

/-- A matrix is back as it was after its rows are listed. -/
theorem matrixOfRows_toList {m n : Nat} (A : DenseMatrix Double m n) :
    matrixOfRows A.toList A.length_toList = A := by
  refine DenseMatrix.ext fun i j => ?_
  have hget := get_matrixOfRows A.length_toList i j
  rw [DenseMatrix.getElem?_toList] at hget
  exact (Option.some.inj hget).symm

/-- Rows that follow each other are back as they were after they are a matrix. -/
theorem toList_matrixOfRows {m n : Nat} {entries : List Double} (h : entries.length = m * n) :
    (matrixOfRows entries h).toList = entries := by
  refine List.ext_getElem? fun place => ?_
  by_cases hplace : place < m * n
  · have hn : 0 < n := Nat.pos_of_ne_zero (by rintro rfl; simp at hplace)
    let i : Fin m := ⟨place / n, (Nat.div_lt_iff_lt_mul hn).mpr hplace⟩
    let j : Fin n := ⟨place % n, Nat.mod_lt _ hn⟩
    have hsplit : i.val * n + j.val = place := by
      rw [Nat.mul_comm]
      exact Nat.div_add_mod place n
    rw [← hsplit, DenseMatrix.getElem?_toList, get_matrixOfRows h]
  · rw [List.getElem?_eq_none, List.getElem?_eq_none]
    · omega
    · rw [DenseMatrix.length_toList]
      omega

/-! ## Models and their records -/

theorem toModel_ofModel {m : Model Double} (h : m.issue? = none) : (ofModel m).toModel = .ok m := by
  have hshape : (ofModel m).mean.length = (ofModel m).dimension ∧
      (ofModel m).projection.length = (ofModel m).dimension * (ofModel m).bitLength ∧
      (ofModel m).rotation.length = (ofModel m).bitLength * (ofModel m).bitLength :=
    ⟨m.mean.length_toList, m.projection.length_toList, m.rotation.length_toList⟩
  have hmodel : Model.mk (ofModel m).dimension (ofModel m).bitLength
      ⟨(ofModel m).mean.toArray, by simpa using hshape.1⟩
      (matrixOfRows (ofModel m).projection hshape.2.1) (matrixOfRows (ofModel m).rotation hshape.2.2)
      (ofModel m).normalize = m := by
    obtain ⟨dimension, bitLength, mean, projection, rotation, normalize⟩ := m
    simp only [ofModel, matrixOfRows_toList]
    rfl
  rw [toModel, if_neg (fun hne => hne rfl), if_neg (fun hne => hne rfl), dif_pos hshape]
  simp only [hmodel, h]

/-- A model is determined by its record. -/
theorem ofModel_injective {m m' : Model Double} (h : ofModel m = ofModel m') : m = m' := by
  obtain ⟨dimension, bitLength, mean, projection, rotation, normalize⟩ := m
  obtain ⟨dimension', bitLength', mean', projection', rotation', normalize'⟩ := m'
  simp only [ofModel, ModelRecord.mk.injEq, true_and] at h
  obtain ⟨rfl, rfl, rfl, hmean, hprojection, hrotation⟩ := h
  obtain rfl := Vector.toList_inj.mp hmean
  obtain rfl := DenseMatrix.toList_injective hprojection
  obtain rfl := DenseMatrix.toList_injective hrotation
  rfl

/-- A record describes a model exactly if it is the model's own and the model has no issue. -/
theorem toModel_eq_ok_iff {r : ModelRecord} {m : Model Double} :
    r.toModel = .ok m ↔ m.issue? = none ∧ r = ofModel m := by
  constructor
  · intro h
    unfold toModel at h
    split at h
    · cases h
    · next hmark =>
      split at h
      · cases h
      · next hversion =>
        split at h
        · next hshape =>
          simp only at h
          split at h
          · cases h
          · next hissue =>
            obtain rfl := Except.ok.inj h
            refine ⟨hissue, ?_⟩
            obtain ⟨mark, version, dimension, bitLength, normalize, mean, projection, rotation⟩ := r
            obtain rfl : mark = modelMark := Decidable.not_not.mp hmark
            obtain rfl : version = currentVersion := Decidable.not_not.mp hversion
            simp only [ofModel, toList_matrixOfRows]
            rfl
        · cases h
  · rintro ⟨hissue, rfl⟩
    exact toModel_ofModel hissue

end ModelRecord

namespace Model

/-- A model can be written: the entries of its projection can be counted in a word, as those of every
model in memory can. -/
def Fits (m : Model Double) : Prop := m.dimension * m.bitLength < 256 ^ 8

instance (m : Model Double) : Decidable m.Fits := inferInstanceAs (Decidable (_ < _))

theorem Fits.ofModel {m : Model Double} (hfits : m.Fits) (hpos : 1 ≤ m.bitLength)
    (hle : m.bitLength ≤ m.dimension) : (ModelRecord.ofModel m).Fits := by
  have hdimension : m.dimension ≤ m.dimension * m.bitLength := Nat.le_mul_of_pos_right _ hpos
  have hsquare : m.bitLength * m.bitLength ≤ m.dimension * m.bitLength :=
    Nat.mul_le_mul_right m.bitLength hle
  refine ⟨rfl, (show 1 < 256 ^ 4 by decide), Nat.lt_of_le_of_lt hdimension hfits,
    Nat.lt_of_le_of_lt (Nat.le_trans hle hdimension) hfits, ?_, ?_, ?_⟩
  · show m.mean.toList.length < 256 ^ 8
    rw [Vector.length_toList]
    exact Nat.lt_of_le_of_lt hdimension hfits
  · show m.projection.toList.length < 256 ^ 8
    rw [DenseMatrix.length_toList]
    exact hfits
  · show m.rotation.toList.length < 256 ^ 8
    rw [DenseMatrix.length_toList]
    exact Nat.lt_of_le_of_lt hsquare hfits

theorem fits_ofModel_iff {m : Model Double} (h : m.issue? = none) :
    (ModelRecord.ofModel m).Fits ↔ m.Fits := by
  obtain ⟨hpos, hle, -⟩ := issue?_eq_none_iff.mp h
  constructor
  · rintro ⟨-, -, -, -, -, hprojection, -⟩
    have hlen : m.projection.toList.length < 256 ^ 8 := hprojection
    rw [DenseMatrix.length_toList] at hlen
    exact hlen
  · intro hfits
    exact hfits.ofModel hpos hle

/-- Bytes hold a model exactly if it has no issue and its record is at the front of their content. -/
theorem ofBytes_eq_ok_iff {bytes : Bytes} {m : Model Double} :
    ofBytes bytes = .ok m ↔ m.issue? = none ∧ m.Fits ∧ m.content <+: Frame.content bytes := by
  rw [ofBytes]
  constructor
  · intro h
    split at h
    · cases h
    · next record rest hread =>
      split at h
      · next model hmodel =>
        obtain rfl := Except.ok.inj h
        obtain ⟨hissue, rfl⟩ := ModelRecord.toModel_eq_ok_iff.mp hmodel
        obtain ⟨hfits, hcontent⟩ := (ModelRecord.decodes_read _ _ _).mp hread
        exact ⟨hissue, (fits_ofModel_iff hissue).mp hfits, rest, hcontent.symm⟩
      · cases h
  · rintro ⟨hissue, hfits, rest, hcontent⟩
    have hread := ModelRecord.decodes_read.read_write ((fits_ofModel_iff hissue).mpr hfits) rest
    rw [← hcontent, content, hread]
    simp only [ModelRecord.toModel_ofModel hissue]

theorem ofBytes_toBytes {m : Model Double} (h : m.issue? = none) (fits : m.Fits) :
    ofBytes m.toBytes = .ok m := by
  rw [ofBytes_eq_ok_iff, toBytes, Frame.content_write]
  exact ⟨h, fits, List.prefix_rfl⟩

/-- What is read of a model's bytes, if anything, is the model, with or without issues. -/
theorem eq_of_ofBytes_toBytes {m m' : Model Double} (fits : m.Fits) (hpos : 1 ≤ m.bitLength)
    (hle : m.bitLength ≤ m.dimension) (h : ofBytes m.toBytes = .ok m') : m' = m := by
  have hread := ModelRecord.decodes_read.read_write (fits.ofModel hpos hle) []
  rw [List.append_nil] at hread
  rw [ofBytes, toBytes, Frame.content_write, content, hread] at h
  simp only at h
  split at h
  · next model hmodel =>
    obtain rfl := Except.ok.inj h
    exact (ModelRecord.ofModel_injective (ModelRecord.toModel_eq_ok_iff.mp hmodel).2).symm
  · cases h

/-- Whatever bytes declare, they hold a model or are refused as not holding one. -/
theorem ofBytes_cases (bytes : Bytes) :
    (∃ m, ofBytes bytes = .ok m) ∨ ∃ issue, ofBytes bytes = .error (.persistence issue) := by
  unfold ofBytes
  split
  · exact .inr ⟨_, rfl⟩
  · split
    · exact .inl ⟨_, rfl⟩
    · exact .inr ⟨_, rfl⟩

/-- What the record of a model is made of, byte by byte. -/
theorem content_eq (m : Model Double) :
    m.content = [0x49, 0x54, 0x51, 0x4d] ++ littleEndian 4 1 ++ littleEndian 8 m.dimension ++
      littleEndian 8 m.bitLength ++ [if m.normalize then 1 else 0] ++
      (littleEndian 8 m.dimension ++ m.mean.toList.flatMap fun x => littleEndian 8 x.bits.toNat) ++
      (littleEndian 8 (m.dimension * m.bitLength) ++
        m.projection.toList.flatMap fun x => littleEndian 8 x.bits.toNat) ++
      (littleEndian 8 (m.bitLength * m.bitLength) ++
        m.rotation.toList.flatMap fun x => littleEndian 8 x.bits.toNat) := by
  have hmean : writeList writeDouble m.mean.toList = littleEndian 8 m.dimension ++
      m.mean.toList.flatMap fun x => littleEndian 8 x.bits.toNat := by
    rw [writeList, Vector.length_toList]
    rfl
  have hmatrix : ∀ {rows columns : Nat} (A : DenseMatrix Double rows columns),
      writeList writeDouble A.toList = littleEndian 8 (rows * columns) ++
        A.toList.flatMap fun x => littleEndian 8 x.bits.toNat := by
    intro rows columns A
    rw [writeList, DenseMatrix.length_toList]
    rfl
  rw [← hmean, ← hmatrix, ← hmatrix]
  rfl

/-- Bytes hold a model exactly if it has no issue and its record, with the rows of its matrices one
after the other, is at the front of their content. So a model is back as it was after it is written,
and all other bytes are refused as not holding one. -/
theorem ofBytes_accepts_encodings :
    (∀ (bytes : Bytes) (m : Model Double), ofBytes bytes = .ok m ↔
      m.issue? = none ∧ m.Fits ∧ m.content <+: Frame.content bytes) ∧
    (∀ m : Model Double, ∃ projection rotation : List Double,
      m.content = [0x49, 0x54, 0x51, 0x4d] ++ littleEndian 4 1 ++ littleEndian 8 m.dimension ++
        littleEndian 8 m.bitLength ++ [if m.normalize then 1 else 0] ++
        (littleEndian 8 m.dimension ++ m.mean.toList.flatMap fun x => littleEndian 8 x.bits.toNat) ++
        (littleEndian 8 (m.dimension * m.bitLength) ++
          projection.flatMap fun x => littleEndian 8 x.bits.toNat) ++
        (littleEndian 8 (m.bitLength * m.bitLength) ++
          rotation.flatMap fun x => littleEndian 8 x.bits.toNat) ∧
      projection.length = m.dimension * m.bitLength ∧
      rotation.length = m.bitLength * m.bitLength ∧
      (∀ i j, projection[i.val * m.bitLength + j.val]? = some (m.projection.get i j)) ∧
      ∀ i j, rotation[i.val * m.bitLength + j.val]? = some (m.rotation.get i j)) ∧
    (∀ m : Model Double, m.issue? = none → m.Fits → ofBytes m.toBytes = .ok m) ∧
    ∀ bytes : Bytes,
      (∃ m, ofBytes bytes = .ok m) ∨ ∃ issue, ofBytes bytes = .error (.persistence issue) := by
  refine ⟨fun bytes m => ofBytes_eq_ok_iff, fun m => ?_, fun m => ofBytes_toBytes, ofBytes_cases⟩
  exact ⟨m.projection.toList, m.rotation.toList, m.content_eq, m.projection.length_toList,
    m.rotation.length_toList, m.projection.getElem?_toList, m.rotation.getElem?_toList⟩

/-- A model of two bits for three dimensions: the second and the first component are swapped, one of them
with its sign changed, then the same is done to what is left. -/
def quarterTurn : Model Double where
  dimension := 3
  bitLength := 2
  mean := #v[0, Double.half, 1]
  projection := ⟨#v[#v[0, -1], #v[1, 0], #v[0, 0]]⟩
  rotation := ⟨#v[#v[0, -1], #v[1, 0]]⟩
  normalize := true

/-- It is back as it was. -/
theorem ofBytes_accepts_quarterTurn : ofBytes quarterTurn.toBytes = .ok quarterTurn := by
  have hissue : quarterTurn.issue? = none := by decide +kernel
  have hfits : quarterTurn.Fits := by decide
  exact ofBytes_accepts_encodings.2.2.1 quarterTurn hissue hfits

/-! ## Sound models -/

/-- What is read has fitting sizes and finite values. Each of its two distances is below the
tolerance exactly if it is a number, which it is not where sums of products of two different columns
meet both infinities. -/
theorem ofBytes_sound_iff {bytes : Bytes} {m : Model Double} (h : ofBytes bytes = .ok m) :
    1 ≤ m.bitLength ∧ m.bitLength ≤ m.dimension ∧ (∀ x ∈ m.mean.toList, x.isFinite = true) ∧
      (∀ i j, (m.projection.get i j).isFinite = true) ∧
      (∀ i j, (m.rotation.get i j).isFinite = true) ∧
      (m.orthogonalityError < tolerance ↔
        ∀ i j, i ≠ j → ((m.rotation.transpose * m.rotation).get i j).isNaN = false) ∧
      (m.projection.orthonormalityError < tolerance ↔
        ∀ i j, i ≠ j → ((m.projection.transpose * m.projection).get i j).isNaN = false) := by
  obtain ⟨hpos, hle, hfinite, hrotation, hprojection⟩ :=
    issue?_eq_none_iff.mp (ofBytes_eq_ok_iff.mp h).1
  obtain ⟨hmean, hprojectionFinite, hrotationFinite⟩ := isFinite_iff.mp hfinite
  exact ⟨hpos, hle, hmean, hprojectionFinite, hrotationFinite,
    DenseMatrix.orthonormalityError_lt_iff hrotationFinite not_nan_tolerance hrotation,
    DenseMatrix.orthonormalityError_lt_iff hprojectionFinite not_nan_tolerance hprojection⟩

/-- A model whose rotation leaves everything as it is, is sound when it is read. -/
theorem ofBytes_sound_identity :
    let m : Model Double := ⟨2, 2, #v[0, 0], .identity 2, .identity 2, false⟩
    ofBytes m.toBytes = .ok m ∧ m.orthogonalityError < tolerance := by
  intro m
  have hissue : m.issue? = none := by decide +kernel
  have hread : ofBytes m.toBytes = .ok m := ofBytes_toBytes hissue (by decide)
  have hproducts : ∀ i j, i ≠ j → ((m.rotation.transpose * m.rotation).get i j).isNaN = false := by
    decide +kernel
  exact ⟨hread, (ofBytes_sound_iff hread).2.2.2.2.2.1.mpr hproducts⟩

/-- A model whose rotation has orthogonal columns, of length about 1e200 instead of one. -/
def steep : Model Double where
  dimension := 3
  bitLength := 2
  mean := #v[0, 1, Double.two]
  projection := ⟨#v[#v[1, 0], #v[0, 1], #v[0, 0]]⟩
  rotation := ⟨#v[#v[⟨0x6974e718d7d7625a⟩, ⟨0x6974e718d7d7625a⟩],
    #v[⟨0x6974e718d7d7625a⟩, ⟨0xe974e718d7d7625a⟩]]⟩
  normalize := false

/-- The steep model is accepted: the products of its columns are too large, their sum is not a number,
and neither is its distance from orthogonal. -/
theorem ofBytes_unsound :
    ofBytes steep.toBytes = .ok steep ∧ ¬steep.orthogonalityError < tolerance := by
  have hissue : steep.issue? = none := by decide +kernel
  have hread : ofBytes steep.toBytes = .ok steep := ofBytes_toBytes hissue (by decide)
  have hdistance : ¬steep.orthogonalityError < tolerance := by decide +kernel
  exact ⟨hread, hdistance⟩

end Model

end SignHash
