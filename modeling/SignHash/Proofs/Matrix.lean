import SignHash.Linear.DenseMatrix

/-!
# Entries of matrices

Entries of differences and products, and of the list of a matrix. The list has each entry at the
place that its row and column say, so a matrix and its list determine each other.
-/

namespace SignHash.DenseMatrix

universe u

variable {α : Type u} {l m n : Nat}

@[simp] theorem get_sub [Sub α] (A B : DenseMatrix α m n) (i : Fin m) (j : Fin n) :
    (A - B).get i j = A.get i j - B.get i j := get_ofFn _ i j

@[simp] theorem get_mul [Add α] [Mul α] [Zero α] (A : DenseMatrix α l m) (B : DenseMatrix α m n)
    (i : Fin l) (j : Fin n) : (A * B).get i j = sumTerms m fun k => A.get i k * B.get k j :=
  get_ofFn _ i j

@[simp] theorem get_column (A : DenseMatrix α m n) (i : Fin m) (j : Fin n) :
    (A.column j).get i = A.get i j := by
  show (A.rows.map (·[j]))[i] = A.rows[i][j]
  simp

@[simp] theorem column_ofColumns (columns : Vector (Vector α m) n) (j : Fin n) :
    (ofColumns columns).column j = columns.get j := by
  refine Vector.ext fun i hi => (get_column _ ⟨i, hi⟩ j).trans ?_
  rw [ofColumns, get_ofFn]
  rfl

/-- A matrix is its entries. -/
theorem ext {A B : DenseMatrix α m n} (h : ∀ i j, A.get i j = B.get i j) : A = B := by
  obtain ⟨rows⟩ := A
  obtain ⟨rows'⟩ := B
  refine congrArg DenseMatrix.mk (Vector.ext fun i hi => Vector.ext fun j hj => ?_)
  exact h ⟨i, hi⟩ ⟨j, hj⟩

@[simp] theorem length_toList (A : DenseMatrix α m n) : A.toList.length = m * n := by
  have hrows : ∀ rows : List (Vector α n), (rows.flatMap Vector.toList).length = rows.length * n := by
    intro rows
    induction rows with
    | nil => simp
    | cons row rows ih =>
      rw [List.flatMap_cons, List.length_append, Vector.length_toList, ih, List.length_cons,
        Nat.add_mul, Nat.one_mul, Nat.add_comm]
  rw [toList, hrows, Vector.length_toList]

/-- Row by row, all rows of `n` entries above it stand in front of an entry. -/
theorem getElem?_flatMap_toList (rows : List (Vector α n)) (i : Nat) {j : Nat} (hj : j < n) :
    (rows.flatMap Vector.toList)[i * n + j]? = rows[i]?.map (·[j]) := by
  induction rows generalizing i with
  | nil => simp
  | cons row rows ih =>
    rw [List.flatMap_cons]
    cases i with
    | zero =>
      rw [Nat.zero_mul, Nat.zero_add, List.getElem?_append_left (by simpa using hj)]
      simp [hj]
    | succ i =>
      have hplace : (i + 1) * n + j = row.toList.length + (i * n + j) := by
        rw [Vector.length_toList, Nat.add_mul]
        omega
      rw [hplace, List.getElem?_append_right (Nat.le_add_right _ _), Nat.add_sub_cancel_left, ih i]
      rfl

/-- Each entry stands in the list after those of the rows above it and those before it in its row. -/
theorem getElem?_toList (A : DenseMatrix α m n) (i : Fin m) (j : Fin n) :
    A.toList[i.val * n + j.val]? = some (A.get i j) := by
  rw [toList, getElem?_flatMap_toList A.rows.toList i.val j.isLt]
  simp [get]

/-- The entries row by row determine a matrix of a given shape. -/
theorem toList_injective {A B : DenseMatrix α m n} (h : A.toList = B.toList) : A = B := by
  refine ext fun i j => Option.some.inj ?_
  rw [← getElem?_toList, h, getElem?_toList]

theorem mem_toList {A : DenseMatrix α m n} {a : α} : a ∈ A.toList ↔ ∃ i j, A.get i j = a := by
  rw [toList, List.mem_flatMap]
  constructor
  · rintro ⟨row, hrow, ha⟩
    obtain ⟨i, hi, rfl⟩ := List.getElem_of_mem hrow
    obtain ⟨j, hj, rfl⟩ := List.getElem_of_mem ha
    exact ⟨⟨i, by simpa using hi⟩, ⟨j, by simpa using hj⟩, by simp [get]⟩
  · rintro ⟨i, j, rfl⟩
    exact ⟨A.rows[i], by simp, by simp [get]⟩

end SignHash.DenseMatrix
