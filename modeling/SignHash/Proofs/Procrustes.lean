import Mathlib.Algebra.Order.Ring.Abs
import Mathlib.Tactic.Linarith
import SignHash.Fit.Rotation
import SignHash.Proofs.MatrixAlgebra

/-!
# The orthogonal Procrustes problem

Among all orthogonal matrices `Q`, the one that brings `V Q` nearest to `B` is `U W`, where `U Σ W`
is the singular value decomposition of `Vᵀ B`. The squared distance is a constant less twice the trace
of `Qᵀ U Σ W`. That is the trace of `Σ` times the orthogonal matrix `W Qᵀ U`, whose diagonal entries
are at most one, and are one if `Q` is `U W`.
-/

namespace SignHash

universe u

variable {K : Type u} [Field K] [LinearOrder K] {n k : Nat}

/-- A decomposition of a matrix, without any error: orthogonal factors on both sides of singular
values, and no singular value is negative. -/
@[mk_iff]
structure Svd.IsExact (s : Svd K k) (M : DenseMatrix K k k) : Prop where
  left_orthogonal : s.left.IsOrthogonal
  right_orthogonal : s.right.IsOrthogonal
  values_nonneg : ∀ i, 0 ≤ s.values.get i
  product_eq : s.left * (DenseMatrix.diagonal s.values * s.right) = M

instance (s : Svd K k) (M : DenseMatrix K k k) : Decidable (s.IsExact M) :=
  decidable_of_iff' _ (Svd.isExact_iff s M)

/-- The trace that is left of a squared distance, with the singular values in front. -/
theorem Svd.IsExact.trace_eq {s : Svd K k} {M : DenseMatrix K k k} (h : s.IsExact M)
    (Q : DenseMatrix K k k) :
    (Q.toMatrix.transpose * M.toMatrix).trace =
      (Matrix.diagonal s.values.get *
        (s.right.toMatrix * Q.toMatrix.transpose * s.left.toMatrix)).trace := by
  rw [← h.product_eq, DenseMatrix.toMatrix_mul, DenseMatrix.toMatrix_mul,
    DenseMatrix.toMatrix_diagonal]
  calc (Q.toMatrix.transpose *
        (s.left.toMatrix * (Matrix.diagonal s.values.get * s.right.toMatrix))).trace
      = (Q.toMatrix.transpose * s.left.toMatrix * Matrix.diagonal s.values.get *
          s.right.toMatrix).trace := by simp only [Matrix.mul_assoc]
    _ = (s.right.toMatrix * (Q.toMatrix.transpose * s.left.toMatrix *
          Matrix.diagonal s.values.get)).trace := Matrix.trace_mul_comm _ _
    _ = (s.right.toMatrix * Q.toMatrix.transpose * s.left.toMatrix *
          Matrix.diagonal s.values.get).trace := by simp only [Matrix.mul_assoc]
    _ = _ := Matrix.trace_mul_comm _ _

/-- The product of the two factors reaches the sum of the singular values. -/
theorem Svd.IsExact.trace_of_factors {s : Svd K k} {M : DenseMatrix K k k} (h : s.IsExact M) :
    ((s.left * s.right).toMatrix.transpose * M.toMatrix).trace = ∑ i, s.values.get i := by
  have hone : s.right.toMatrix * (s.left.toMatrix * s.right.toMatrix).transpose * s.left.toMatrix
      = 1 := by
    rw [Matrix.transpose_mul, ← Matrix.mul_assoc, h.right_orthogonal.mul_transpose, Matrix.one_mul,
      DenseMatrix.isOrthogonal_iff.mp h.left_orthogonal]
  rw [h.trace_eq, DenseMatrix.toMatrix_mul, hone, Matrix.mul_one, Matrix.trace_diagonal]

/-- The nearest rotation is orthogonal, as both of its factors are. -/
theorem nearestRotation_isOrthogonal {svd : DenseMatrix K k k → Svd K k} {V B : DenseMatrix K n k}
    (h : (svd (V.transpose * B)).IsExact (V.transpose * B)) :
    (nearestRotation svd V B).IsOrthogonal := h.left_orthogonal.mul h.right_orthogonal

/-! ## The largest trace -/

variable [IsStrictOrderedRing K]

/-- No entry of an orthogonal matrix exceeds one, since the squares in a column add up to one. -/
theorem entry_le_one {Z : Matrix (Fin k) (Fin k) K} (horthogonal : Z.transpose * Z = 1) (i : Fin k) :
    Z i i ≤ 1 := by
  have hcolumn : ∑ j, Z j i * Z j i = 1 := by
    have hentry := congrFun (congrFun horthogonal i) i
    rwa [Matrix.mul_apply, Matrix.one_apply_eq] at hentry
  have hsquare : Z i i * Z i i ≤ 1 := by
    rw [← hcolumn]
    exact Finset.single_le_sum (fun j _ => mul_self_nonneg (Z j i)) (Finset.mem_univ i)
  exact (abs_le.mp (abs_le_one_iff_mul_self_le_one.mpr hsquare)).2

/-- With weights that are not negative, no orthogonal matrix has a larger trace than the identity. -/
theorem trace_diagonal_mul_le {values : Fin k → K} (hvalues : ∀ i, 0 ≤ values i)
    {Z : Matrix (Fin k) (Fin k) K} (horthogonal : Z.transpose * Z = 1) :
    (Matrix.diagonal values * Z).trace ≤ ∑ i, values i := by
  refine Finset.sum_le_sum fun i _ => ?_
  rw [Matrix.diag_apply, Matrix.diagonal_mul]
  exact mul_le_of_le_one_right (hvalues i) (entry_le_one horthogonal i)

/-- No orthogonal matrix exceeds the sum of the singular values. -/
theorem Svd.IsExact.trace_le {s : Svd K k} {M : DenseMatrix K k k} (h : s.IsExact M)
    {Q : DenseMatrix K k k} (hQ : Q.IsOrthogonal) :
    (Q.toMatrix.transpose * M.toMatrix).trace ≤ ∑ i, s.values.get i := by
  rw [h.trace_eq]
  refine trace_diagonal_mul_le h.values_nonneg ?_
  have hproduct : (s.right * Q.transpose * s.left).IsOrthogonal :=
    (h.right_orthogonal.mul hQ.transpose).mul h.left_orthogonal
  simpa using DenseMatrix.isOrthogonal_iff.mp hproduct

/-- No orthogonal matrix is nearer: all norms are fixed, and the trace is largest. -/
theorem normSquared_nearestRotation_le {svd : DenseMatrix K k k → Svd K k} {V B : DenseMatrix K n k}
    (h : (svd (V.transpose * B)).IsExact (V.transpose * B)) {Q : DenseMatrix K k k}
    (hQ : Q.IsOrthogonal) :
    (V * nearestRotation svd V B - B).normSquared ≤ (V * Q - B).normSquared := by
  have hnearest := h.trace_of_factors
  have hother := h.trace_le hQ
  rw [DenseMatrix.normSquared_mul_sub V B (nearestRotation_isOrthogonal h),
    DenseMatrix.normSquared_mul_sub V B hQ, nearestRotation, hnearest]
  linarith

end SignHash
