import SignHash.Linear.DenseMatrix

/-!
# Reflections

A reflection at the hyperplane across an axis takes a given vector to a multiple of the first
coordinate axis. It is the step that clears a row or a column of a matrix.
-/

namespace SignHash

variable {n : Nat}

/-- The sum of the products of the entries. -/
def dotProduct (x y : Vector Double n) : Double := sumTerms n fun i => x.get i * y.get i

/-- A reflection that clears all entries of a vector but the first. -/
structure Reflection (n : Nat) where
  /-- The axis, of length one if `proper`. -/
  axis : Vector Double n
  /-- What the first entry becomes, up to the reflection's sign. -/
  value : Double
  /-- Whether the vector is not zero, so that there is something to reflect. -/
  proper : Bool

namespace Reflection

/-- The reflection that clears a vector: its axis is the vector with its own length added to the
first entry, away from zero, scaled to length one. It is scaled twice, because the first scale
factor may be inexact for a very short vector. -/
def clearing (x : Vector Double (n + 1)) : Reflection (n + 1) :=
  let square := dotProduct x x
  let length := sqrt square
  let first := x[0]
  let signed := if 0 ≤ first then length else -length
  let factor := (square + first.abs * length) * Double.two
  let moved := x.set 0 (first + signed)
  if factor.isZero then ⟨moved, signed, false⟩
  else
    let scale := sqrt factor
    let axis := moved.map (· / scale)
    let length := sqrt (dotProduct axis axis)
    ⟨axis.map (· / length), -signed, true⟩

/-- A vector reflected across an axis, and multiplied with a sign. -/
def apply (axis : Vector Double n) (sign : Double) (x : Vector Double n) : Vector Double n :=
  let factor := dotProduct axis x * (sign * -Double.two)
  Vector.zipWith (fun a b => factor * a + sign * b) axis x

end Reflection

/-- A vector with an entry in front. -/
def prepend {α : Type} (first : α) (x : Vector α n) : Vector α (n + 1) :=
  (#v[first] ++ x).cast (Nat.add_comm 1 n)

/-- The columns, or the rows, of a block matrix with a one in its corner and the given vectors in
the block below it. -/
def borderWithOne {m : Nat} (vectors : Vector (Vector Double n) m) :
    Vector (Vector Double (n + 1)) (m + 1) :=
  prepend (prepend 1 (Vector.replicate n 0)) (vectors.map (prepend 0))

end SignHash
