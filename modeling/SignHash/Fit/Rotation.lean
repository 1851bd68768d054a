import SignHash.Linear.SingularValue
import SignHash.Random.Normal

/-!
# Refining the rotation

The rotation of the projected descriptors that brings them nearest to signs is found in turns: the
rotated descriptors are replaced by their signs, then the rotation is replaced by the one that
brings the descriptors nearest to these signs. Each turn records the distance that is left.

The turns take the singular value decomposition as an argument, so that they make sense over any
numbers.
-/

namespace SignHash

universe u

variable {α : Type u} [Add α] [Sub α] [Mul α] [Neg α] [Zero α] [One α] [LE α] [DecidableLE α]
  [SquareRoot α] {n k : Nat}

/-- One with the sign of a number; zero counts as positive. -/
def binarize (x : α) : α := if 0 ≤ x then 1 else -1

/-- The rotation that brings projected descriptors nearest to given signs. -/
def nearestRotation (svd : DenseMatrix α k k → Svd α k) (projected signs : DenseMatrix α n k) :
    DenseMatrix α k k :=
  let s := svd (projected.transpose * signs)
  s.left * s.right

/-- A turn: the next rotation, and the distance of the descriptors from their signs under it. -/
def refineOnce (svd : DenseMatrix α k k → Svd α k) (projected : DenseMatrix α n k)
    (rotation : DenseMatrix α k k) : DenseMatrix α k k × α :=
  let signs := (projected * rotation).map binarize
  let next := nearestRotation svd projected signs
  (next, (projected * next - signs).norm)

/-- Whether a distance improves on the one before by no more than the tolerated part of it. -/
def hasConverged (tolerance : α) (previous : Option α) (error : α) : Bool :=
  match previous with
  | none => false
  | some previous => previous - error ≤ tolerance * previous

/-- Turns until the distances have converged, at most so many: the last rotation, and the distance
after each turn. -/
def refine (svd : DenseMatrix α k k → Svd α k) (tolerance : α) (projected : DenseMatrix α n k) :
    Nat → Option α → DenseMatrix α k k → DenseMatrix α k k × List α
  | 0, _, rotation => (rotation, [])
  | turns + 1, previous, rotation =>
    let (next, error) := refineOnce svd projected rotation
    if hasConverged tolerance previous error then (next, [error])
    else
      let (last, errors) := refine svd tolerance projected turns (some error) next
      (last, error :: errors)

/-- A random rotation: the left factor of a matrix of normally distributed entries, which are drawn
column by column. -/
def randomRotation (k seed : Nat) : DenseMatrix Double k k :=
  let draws :=
    (Random.drawNormals (k * k) (Random.Generator.ofSeed (UInt64.ofNat seed))).toArray
  (singularValues (DenseMatrix.ofFn fun i j => draws.getD (j.val * k + i.val) 0)).left

end SignHash
