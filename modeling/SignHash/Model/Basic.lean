import SignHash.Error
import SignHash.Linear.DenseMatrix

/-!
# Models

A model turns descriptors into codes: subtract the mean, project onto fewer dimensions, rotate, and
keep the signs. The parts of a model have fitting sizes by their types; `Model.issue?` looks for
what types do not say.
-/

namespace SignHash

universe u

/-- What descriptors are encoded with. -/
structure Model (α : Type u) where
  /-- The dimension of the descriptors. -/
  dimension : Nat
  /-- The number of bits in each code. -/
  bitLength : Nat
  /-- The mean of the descriptors that the model was fitted to. -/
  mean : Vector α dimension
  /-- The projection onto as many dimensions as there are bits. -/
  projection : DenseMatrix α dimension bitLength
  /-- The rotation of the projected space. -/
  rotation : DenseMatrix α bitLength bitLength
  /-- Whether descriptors are first scaled to length one. -/
  normalize : Bool
  deriving DecidableEq

/-- A vector scaled to length one; the zero vector stays as it is. -/
def unitLength {α : Type u} [Add α] [Mul α] [Div α] [Zero α] [SquareRoot α] [LT α] [DecidableLT α]
    {n : Nat} (x : Vector α n) : Vector α n :=
  let norm := sqrt (sumTerms n fun i => x.get i * x.get i)
  if 0 < norm then x.map (· / norm) else x

namespace Model

/-- How far the rotation is from orthogonal. -/
def orthogonalityError (m : Model Double) : Double := m.rotation.orthonormalityError

/-- How far a matrix may stray from having orthonormal columns. -/
def tolerance : Double := ⟨0x3eb0c6f7a0b5ed8d⟩

/-- Whether every value of a model is finite. -/
def isFinite (m : Model Double) : Bool :=
  m.mean.toList.all Double.isFinite && m.projection.toList.all Double.isFinite &&
    m.rotation.toList.all Double.isFinite

/-- The first issue with a model's values, if there is one. -/
def issue? (m : Model Double) : Option ModelIssue :=
  if m.bitLength = 0 ∨ m.dimension < m.bitLength then some (.bitLength m.bitLength m.dimension)
  else if !m.isFinite then some .nonFinite
  else if tolerance ≤ m.orthogonalityError then some (.rotation m.orthogonalityError)
  else if tolerance ≤ m.projection.orthonormalityError then
    some (.projection m.projection.orthonormalityError)
  else none

end Model

end SignHash
