import SignHash.Model.Basic
import SignHash.Proofs.Double
import SignHash.Proofs.Matrix

/-!
# Orthonormal columns

When the distance from orthonormal columns is a number at all. Products of finite entries can be too
large, and sums of them can then meet both infinities; the distance is NaN exactly if that happens
between two different columns.
-/

namespace SignHash

open Double

/-! ## Sums -/

theorem foldl_add_induction {P : Double → Prop} (add : ∀ x y, P x → P y → P (x + y)) {n : Nat}
    {g : Fin n → Double} {x : Double} (hx : P x) (h : ∀ i, P (g i)) :
    P (Fin.foldl n (fun sum i => sum + g i) x) := by
  induction n generalizing x with
  | zero => exact hx
  | succ n ih =>
    rw [Fin.foldl_succ]
    exact ih (add _ _ hx (h 0)) (fun i => h i.succ)

/-- What zero has, and sums keep, a sum has of terms that have it. -/
theorem sumTerms_induction {P : Double → Prop} (zero : P 0) (add : ∀ x y, P x → P y → P (x + y))
    {n : Nat} {g : Fin n → Double} (h : ∀ i, P (g i)) : P (sumTerms n g) := by
  cases n with
  | zero => exact zero
  | succ n => exact foldl_add_induction add (h 0) (fun i => h i.succ)

/-- Whatever is added to it, a NaN stays one. -/
theorem foldl_add_nan {n : Nat} {g : Fin n → Double} {x : Double}
    (h : x.kind = .nan ∨ ∃ i, (g i).kind = .nan) :
    (Fin.foldl n (fun sum i => sum + g i) x).kind = .nan := by
  induction n generalizing x with
  | zero =>
    rcases h with h | ⟨i, -⟩
    · exact h
    · exact i.elim0
  | succ n ih =>
    rw [Fin.foldl_succ]
    apply ih
    rcases h with h | ⟨i, hi⟩
    · exact .inl (add_nan (.inl h))
    · rcases Fin.eq_zero_or_eq_succ i with rfl | ⟨j, rfl⟩
      · exact .inl (add_nan (.inr hi))
      · exact .inr ⟨j, hi⟩

/-- A sum with a NaN in it is NaN. -/
theorem sumTerms_nan {n : Nat} {g : Fin n → Double} {i : Fin n} (hi : (g i).kind = .nan) :
    (sumTerms n g).kind = .nan := by
  cases n with
  | zero => exact i.elim0
  | succ n =>
    rcases Fin.eq_zero_or_eq_succ i with rfl | ⟨j, rfl⟩
    · exact foldl_add_nan (.inl hi)
    · exact foldl_add_nan (.inr ⟨j, hi⟩)

/-! ## Distances -/

namespace DenseMatrix

variable {m n : Nat}

theorem kind_get_identity (i j : Fin n) :
    ((identity n : DenseMatrix Double n n).get i j).kind = .finite .positive := by
  rw [identity, get_ofFn]
  split <;> rfl

/-- The norm of a matrix is NaN exactly if one of its entries is. -/
theorem norm_nan_iff (A : DenseMatrix Double m n) :
    A.norm.kind = .nan ↔ ∃ i j, (A.get i j).kind = .nan := by
  constructor
  · intro h
    by_cases hentries : ∃ i j, (A.get i j).kind = .nan
    · exact hentries
    · have hsquares : A.normSquared.NotBelowZero := by
        refine sumTerms_induction notBelowZero_zero (fun _ _ => .add) fun j => ?_
        refine sumTerms_induction notBelowZero_zero (fun _ _ => .add) fun i => ?_
        exact notBelowZero_mul_self fun hnan => hentries ⟨i, j, hnan⟩
      exact absurd h (sqrt_not_nan hsquares)
  · rintro ⟨i, j, hnan⟩
    have hcolumn : (sumTerms m fun i => A.get i j * A.get i j).kind = .nan :=
      sumTerms_nan (i := i) (mul_nan hnan)
    exact sqrt_nan (sumTerms_nan (i := j) hcolumn)

/-- The distance is a NaN only if the Gram matrix has one: the identity is finite. -/
theorem orthonormalityError_nan_iff (A : DenseMatrix Double m n) :
    A.orthonormalityError.kind = .nan ↔ ∃ i j, ((A.transpose * A).get i j).kind = .nan := by
  rw [orthonormalityError, norm_nan_iff]
  have hentry : ∀ i j, ((A.transpose * A - identity n).get i j).kind = .nan ↔
      ((A.transpose * A).get i j).kind = .nan := by
    intro i j
    rw [get_sub]
    exact sub_nan_iff (kind_get_identity i j)
  simp only [hentry]

/-- The product of a column with itself is a number, if its entries are. -/
theorem get_gram_self {A : DenseMatrix Double m n} (h : ∀ i j, (A.get i j).kind ≠ .nan) (j : Fin n) :
    ((A.transpose * A).get j j).kind ≠ .nan := by
  rw [get_mul]
  refine NotBelowZero.not_nan (sumTerms_induction notBelowZero_zero (fun _ _ => .add) fun i => ?_)
  rw [get_transpose]
  exact notBelowZero_mul_self (h i j)

/-- A distance that is not at least a bound is below it exactly if no two different columns have a
product that is NaN. -/
theorem orthonormalityError_lt_iff {A : DenseMatrix Double m n} {bound : Double}
    (finite : ∀ i j, (A.get i j).isFinite = true) (hbound : bound.kind ≠ .nan)
    (h : ¬bound ≤ A.orthonormalityError) :
    A.orthonormalityError < bound ↔
      ∀ i j, i ≠ j → ((A.transpose * A).get i j).isNaN = false := by
  have hlt : A.orthonormalityError < bound ↔ ¬A.orthonormalityError.kind = .nan :=
    ⟨not_nan_of_lt, fun hnan => lt_of_not_le hbound hnan h⟩
  rw [hlt, orthonormalityError_nan_iff]
  constructor
  · intro hnone i j _
    rw [Bool.eq_false_iff, Ne, isNaN_iff]
    exact fun hnan => hnone ⟨i, j, hnan⟩
  · rintro hdifferent ⟨i, j, hnan⟩
    by_cases hij : i = j
    · subst hij
      exact get_gram_self (fun i j => not_nan_of_isFinite (finite i j)) i hnan
    · have hfalse := hdifferent i j hij
      rw [isNaN_iff.mpr hnan] at hfalse
      cases hfalse

end DenseMatrix

/-! ## Models without issues -/

namespace Model

/-- A model has no issue if no distance reaches the tolerance, which a NaN never does. -/
theorem issue?_eq_none_iff {m : Model Double} :
    m.issue? = none ↔ 1 ≤ m.bitLength ∧ m.bitLength ≤ m.dimension ∧ m.isFinite = true ∧
      ¬tolerance ≤ m.orthogonalityError ∧ ¬tolerance ≤ m.projection.orthonormalityError := by
  unfold issue?
  split
  · next h =>
    simp only [reduceCtorEq, false_iff]
    omega
  · next h =>
    have hbounds : 1 ≤ m.bitLength ∧ m.bitLength ≤ m.dimension := by omega
    split
    · next hfinite => simp_all
    · split
      · next hrotation => simp_all
      · split
        · next hprojection => simp_all
        · simp_all

theorem all_toList_iff {rows columns : Nat} {A : DenseMatrix Double rows columns} :
    A.toList.all Double.isFinite = true ↔ ∀ i j, (A.get i j).isFinite = true := by
  rw [List.all_eq_true]
  constructor
  · intro h i j
    exact h _ (DenseMatrix.mem_toList.mpr ⟨i, j, rfl⟩)
  · intro h x hx
    obtain ⟨i, j, rfl⟩ := DenseMatrix.mem_toList.mp hx
    exact h i j

/-- All entries are looked at, those of the mean and of both matrices. -/
theorem isFinite_iff {m : Model Double} :
    m.isFinite = true ↔ (∀ x ∈ m.mean.toList, x.isFinite = true) ∧
      (∀ i j, (m.projection.get i j).isFinite = true) ∧
      ∀ i j, (m.rotation.get i j).isFinite = true := by
  rw [isFinite, Bool.and_eq_true, Bool.and_eq_true, all_toList_iff, all_toList_iff,
    List.all_eq_true, and_assoc]

theorem not_nan_tolerance : tolerance.kind ≠ .nan := not_nan_of_isFinite (by decide)

end Model

end SignHash
