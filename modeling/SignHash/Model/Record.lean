import SignHash.Frame.Writer
import SignHash.Model.Basic
import SignHash.Wire.Basic

/-!
# Models as bytes

A model is stored as a frame whose content is a record: a mark and a version, the two sizes, whether
descriptors are normalised, then the mean and the rows of the projection and of the rotation, each
with its length in front. Reading checks that the lengths agree with the sizes and that the model
has no issue; what follows the record in the frame is not looked at.
-/

namespace SignHash

open Wire

/-- The record of a model. -/
structure ModelRecord where
  /-- The four bytes that mark a record as a model's. -/
  mark : Bytes
  /-- The version of the format. -/
  version : Nat
  /-- The dimension of the descriptors. -/
  dimension : Nat
  /-- The number of bits in each code. -/
  bitLength : Nat
  /-- Whether descriptors are normalised. -/
  normalize : Bool
  /-- The mean. -/
  mean : List Double
  /-- The rows of the projection. -/
  projection : List Double
  /-- The rows of the rotation. -/
  rotation : List Double
  deriving DecidableEq

namespace ModelRecord

/-- The mark of models. -/
def modelMark : Bytes := [0x49, 0x54, 0x51, 0x4D]

/-- The version of the format. -/
def currentVersion : Nat := 1

/-- A record as bytes. -/
def write (r : ModelRecord) : Bytes :=
  r.mark ++ littleEndian 4 r.version ++ writeWord r.dimension ++ writeWord r.bitLength ++
    writeBool r.normalize ++ writeList writeDouble r.mean ++ writeList writeDouble r.projection ++
    writeList writeDouble r.rotation

/-- The record at the front of a byte string. -/
def read : Decoder ModelRecord := fun bytes => do
  let (mark, bytes) ← readBytes 4 bytes
  let (version, bytes) ← readNat 4 bytes
  let (dimension, bytes) ← readNat 8 bytes
  let (bitLength, bytes) ← readNat 8 bytes
  let (normalize, bytes) ← readBool bytes
  let (mean, bytes) ← readList readDouble bytes
  let (projection, bytes) ← readList readDouble bytes
  let (rotation, bytes) ← readList readDouble bytes
  return (⟨mark, version, dimension, bitLength, normalize, mean, projection, rotation⟩, bytes)

/-- The record of a model. -/
def ofModel (m : Model Double) : ModelRecord where
  mark := modelMark
  version := currentVersion
  dimension := m.dimension
  bitLength := m.bitLength
  normalize := m.normalize
  mean := m.mean.toList
  projection := m.projection.toList
  rotation := m.rotation.toList

/-- The matrix whose rows follow each other in a list. -/
def matrixOfRows {m n : Nat} (entries : List Double) (h : entries.length = m * n) :
    DenseMatrix Double m n :=
  let held : Vector Double (m * n) := ⟨entries.toArray, by simpa using h⟩
  DenseMatrix.ofFn fun i j =>
    held.get ⟨i.val * n + j.val, by
      have hi : i.val + 1 ≤ m := i.isLt
      have hj : j.val < n := j.isLt
      calc i.val * n + j.val < i.val * n + n := by omega
        _ = (i.val + 1) * n := by rw [Nat.add_mul, Nat.one_mul]
        _ ≤ m * n := Nat.mul_le_mul_right n hi⟩

/-- The model that a record describes. -/
def toModel (r : ModelRecord) : Except PersistenceIssue (Model Double) :=
  if r.mark ≠ modelMark then .error .notAModel
  else if r.version ≠ currentVersion then .error (.version r.version)
  else if h : r.mean.length = r.dimension ∧ r.projection.length = r.dimension * r.bitLength ∧
      r.rotation.length = r.bitLength * r.bitLength then
    let model : Model Double :=
      { dimension := r.dimension
        bitLength := r.bitLength
        mean := ⟨r.mean.toArray, by simpa using h.1⟩
        projection := matrixOfRows r.projection h.2.1
        rotation := matrixOfRows r.rotation h.2.2
        normalize := r.normalize }
    match model.issue? with
    | some issue => .error (.inconsistent issue)
    | none => .ok model
  else .error (.shape r.dimension r.bitLength)

end ModelRecord

namespace Model

/-- The record of a model, as it is before it is framed. -/
def content (m : Model Double) : Bytes := (ModelRecord.ofModel m).write

/-- A model as bytes. -/
def toBytes (m : Model Double) : Bytes := Frame.write m.content

/-- The model that bytes hold. -/
def ofBytes (bytes : Bytes) : Except Error (Model Double) :=
  match ModelRecord.read (Frame.content bytes) with
  | none => .error (.persistence .undecodable)
  | some (record, _) =>
    match record.toModel with
    | .ok model => .ok model
    | .error issue => .error (.persistence issue)

end Model

end SignHash
