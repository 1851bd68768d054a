import Mathlib.LinearAlgebra.Matrix.SemiringInverse
import Mathlib.LinearAlgebra.Matrix.Trace
import Mathlib.Tactic.Ring
import SignHash.Proofs.Matrix

/-!
# Matrices in exact arithmetic

Over numbers that add and multiply exactly, the sums of a product, a norm and a product of matrices
are sums in any order. `DenseMatrix.toMatrix` takes them to matrices as functions of their places,
where products associate and traces can be turned around.
-/

namespace SignHash

universe u

variable {α : Type u}

/-! ## Sums -/

theorem foldl_add_eq_sum [AddCommMonoid α] {n : Nat} (term : Fin n → α) (a : α) :
    Fin.foldl n (fun sum i => sum + term i) a = a + ∑ i, term i := by
  induction n generalizing a with
  | zero => simp
  | succ n ih => rw [Fin.foldl_succ, ih, Fin.sum_univ_succ, add_assoc]

/-- With a zero that is none to add, it does not matter that a sum starts from its first term. -/
theorem sumTerms_eq_sum [AddCommMonoid α] {n : Nat} (term : Fin n → α) :
    sumTerms n term = ∑ i, term i := by
  cases n with
  | zero => rfl
  | succ n => rw [sumTerms, foldl_add_eq_sum, Fin.sum_univ_succ]

namespace DenseMatrix

variable {l m n : Nat}

/-! ## Matrices as functions -/

/-- The entries of a matrix as a function of row and column. -/
def toMatrix (A : DenseMatrix α m n) : Matrix (Fin m) (Fin n) α := Matrix.of A.get

@[simp] theorem toMatrix_apply (A : DenseMatrix α m n) (i : Fin m) (j : Fin n) :
    A.toMatrix i j = A.get i j := rfl

theorem toMatrix_injective {A B : DenseMatrix α m n} (h : A.toMatrix = B.toMatrix) : A = B :=
  ext fun i j => congrFun (congrFun h i) j

@[simp] theorem toMatrix_transpose (A : DenseMatrix α m n) :
    A.transpose.toMatrix = A.toMatrix.transpose := by
  ext i j
  simp

@[simp] theorem toMatrix_mul [NonUnitalNonAssocSemiring α] (A : DenseMatrix α l m)
    (B : DenseMatrix α m n) : (A * B).toMatrix = A.toMatrix * B.toMatrix := by
  ext i j
  rw [toMatrix_apply, get_mul, sumTerms_eq_sum, Matrix.mul_apply]
  rfl

/-- Products associate where addition and multiplication do, so not over binary64 numbers. -/
protected theorem mul_assoc [NonUnitalSemiring α] {k : Nat} (A : DenseMatrix α k l)
    (B : DenseMatrix α l m) (C : DenseMatrix α m n) : A * B * C = A * (B * C) := by
  apply toMatrix_injective
  simp only [toMatrix_mul, Matrix.mul_assoc]

@[simp] theorem toMatrix_sub [Sub α] (A B : DenseMatrix α m n) :
    (A - B).toMatrix = A.toMatrix - B.toMatrix := by
  ext i j
  rw [toMatrix_apply, get_sub, Matrix.sub_apply]
  rfl

@[simp] theorem toMatrix_identity [Zero α] [One α] : (identity n : DenseMatrix α n n).toMatrix = 1 := by
  ext i j
  rw [toMatrix_apply, identity, get_ofFn, Matrix.one_apply]

/-- The matrix with given entries on the diagonal. -/
def diagonal [Zero α] (entries : Vector α n) : DenseMatrix α n n :=
  ofFn fun i j => if i = j then entries.get i else 0

@[simp] theorem toMatrix_diagonal [Zero α] (entries : Vector α n) :
    (diagonal entries).toMatrix = Matrix.diagonal entries.get := by
  ext i j
  rw [toMatrix_apply, diagonal, get_ofFn, Matrix.diagonal_apply]

/-! ## Norms -/

theorem normSquared_eq_sum [NonUnitalNonAssocSemiring α] (A : DenseMatrix α m n) :
    A.normSquared = ∑ j, ∑ i, A.get i j * A.get i j := by
  simp only [normSquared, sumTerms_eq_sum]

/-- The sum of all squares is the trace of the product with the transpose. -/
theorem normSquared_eq_trace [NonUnitalNonAssocSemiring α] (A : DenseMatrix α m n) :
    A.normSquared = (A.toMatrix.transpose * A.toMatrix).trace := by
  rw [normSquared_eq_sum]
  rfl

/-! ## Orthogonal matrices -/

/-- A square matrix is orthogonal if its columns are orthonormal. -/
def IsOrthogonal [Add α] [Mul α] [Zero α] [One α] (A : DenseMatrix α n n) : Prop :=
  A.transpose * A = identity n

instance [Add α] [Mul α] [Zero α] [One α] [DecidableEq α] (A : DenseMatrix α n n) :
    Decidable A.IsOrthogonal := inferInstanceAs (Decidable (_ = _))

variable [CommRing α]

theorem isOrthogonal_iff {A : DenseMatrix α n n} :
    A.IsOrthogonal ↔ A.toMatrix.transpose * A.toMatrix = 1 := by
  constructor
  · intro h
    rw [← toMatrix_transpose, ← toMatrix_mul, h, toMatrix_identity]
  · intro h
    apply toMatrix_injective
    rw [toMatrix_mul, toMatrix_transpose, h, toMatrix_identity]

/-- The rows of an orthogonal matrix are orthonormal too. -/
theorem IsOrthogonal.mul_transpose {A : DenseMatrix α n n} (h : A.IsOrthogonal) :
    A.toMatrix * A.toMatrix.transpose = 1 := mul_eq_one_comm.mp (isOrthogonal_iff.mp h)

/-- Where columns are orthonormal, rows are. -/
theorem IsOrthogonal.transpose {A : DenseMatrix α n n} (h : A.IsOrthogonal) :
    A.transpose.IsOrthogonal := by
  rw [isOrthogonal_iff, toMatrix_transpose, Matrix.transpose_transpose]
  exact h.mul_transpose

theorem IsOrthogonal.mul {A B : DenseMatrix α n n} (hA : A.IsOrthogonal) (hB : B.IsOrthogonal) :
    (A * B).IsOrthogonal := by
  rw [isOrthogonal_iff, toMatrix_mul, Matrix.transpose_mul]
  calc B.toMatrix.transpose * A.toMatrix.transpose * (A.toMatrix * B.toMatrix)
      = B.toMatrix.transpose * (A.toMatrix.transpose * A.toMatrix) * B.toMatrix := by
        simp only [Matrix.mul_assoc]
    _ = 1 := by rw [isOrthogonal_iff.mp hA, Matrix.mul_one, isOrthogonal_iff.mp hB]

/-- An orthogonal matrix enters the squared distance through a trace only. -/
theorem normSquared_mul_sub (V B : DenseMatrix α m n) {Q : DenseMatrix α n n} (hQ : Q.IsOrthogonal) :
    (V * Q - B).normSquared = V.normSquared + B.normSquared -
      2 * (Q.toMatrix.transpose * (V.transpose * B).toMatrix).trace := by
  simp only [normSquared_eq_trace, toMatrix_sub, toMatrix_mul,
    toMatrix_transpose]
  have hrows := hQ.mul_transpose
  generalize V.toMatrix = v, B.toMatrix = b, Q.toMatrix = q at hrows ⊢
  have hsquare : ((v * q).transpose * (v * q)).trace = (v.transpose * v).trace := by
    rw [← Matrix.mul_assoc, Matrix.trace_mul_comm, Matrix.transpose_mul, Matrix.mul_assoc,
      ← Matrix.mul_assoc, hrows, Matrix.one_mul]
  have hcross : (b.transpose * (v * q)).trace = (q.transpose * (v.transpose * b)).trace := by
    rw [← Matrix.trace_transpose, Matrix.transpose_mul, Matrix.transpose_mul,
      Matrix.transpose_transpose, Matrix.mul_assoc]
  calc ((v * q - b).transpose * (v * q - b)).trace
      = ((v * q).transpose * (v * q)).trace - ((v * q).transpose * b).trace -
          ((b.transpose * (v * q)).trace - (b.transpose * b).trace) := by
        rw [Matrix.transpose_sub, Matrix.sub_mul, Matrix.mul_sub, Matrix.mul_sub]
        simp only [Matrix.trace_sub]
    _ = (v.transpose * v).trace + (b.transpose * b).trace -
          2 * (q.transpose * (v.transpose * b)).trace := by
        rw [hsquare, hcross, Matrix.transpose_mul, Matrix.mul_assoc]
        ring

end DenseMatrix

end SignHash
