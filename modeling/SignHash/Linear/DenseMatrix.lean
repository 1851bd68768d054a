import SignHash.Double

/-!
# Dense matrices

Matrices of a fixed number of rows and columns, over any numbers: entries, products, differences and
norms. A sum starts from its first term, so it is the plain sum where addition has a zero, and over
binary64 numbers it adds the terms from left to right without a zero in front.
-/

namespace SignHash

universe u v

/-- The sum of the terms from left to right; zero if there are none. -/
def sumTerms {α : Type u} [Add α] [Zero α] : (n : Nat) → (Fin n → α) → α
  | 0, _ => 0
  | n + 1, term => Fin.foldl n (fun sum i => sum + term i.succ) (term 0)

/-- A matrix of `m` rows and `n` columns. -/
structure DenseMatrix (α : Type u) (m n : Nat) where
  /-- The rows, from top to bottom. -/
  rows : Vector (Vector α n) m
  deriving DecidableEq

namespace DenseMatrix

variable {α : Type u} {l m n : Nat}

/-- The matrix with given entries. -/
def ofFn (entry : Fin m → Fin n → α) : DenseMatrix α m n :=
  ⟨Vector.ofFn fun i => Vector.ofFn (entry i)⟩

/-- The entry in a row and a column. -/
def get (A : DenseMatrix α m n) (i : Fin m) (j : Fin n) : α := A.rows[i][j]

/-- The entries of a column. -/
def column (A : DenseMatrix α m n) (j : Fin n) : Vector α m := A.rows.map (·[j])

/-- The matrix with given columns. -/
def ofColumns (columns : Vector (Vector α m) n) : DenseMatrix α m n :=
  ofFn fun i j => columns[j][i]

/-- The matrix with a function applied to every entry. -/
def map {β : Type v} (f : α → β) (A : DenseMatrix α m n) : DenseMatrix β m n :=
  ⟨A.rows.map (·.map f)⟩

/-- Rows and columns exchanged. -/
def transpose (A : DenseMatrix α m n) : DenseMatrix α n m := ofFn fun i j => A.get j i

/-- All entries, row by row. -/
def toList (A : DenseMatrix α m n) : List α := A.rows.toList.flatMap (·.toList)

/-- The identity matrix. -/
def identity [Zero α] [One α] (n : Nat) : DenseMatrix α n n :=
  ofFn fun i j => if i = j then 1 else 0

/-- The product: each entry is the sum of products along a row and a column. -/
def mul [Add α] [Mul α] [Zero α] (A : DenseMatrix α l m) (B : DenseMatrix α m n) :
    DenseMatrix α l n :=
  ofFn fun i j => sumTerms m fun k => A.get i k * B.get k j

instance [Add α] [Mul α] [Zero α] : HMul (DenseMatrix α l m) (DenseMatrix α m n)
    (DenseMatrix α l n) := ⟨mul⟩

instance [Sub α] : Sub (DenseMatrix α m n) := ⟨fun A B => ofFn fun i j => A.get i j - B.get i j⟩

/-- The sum of the squares of all entries, column by column; binary64 numbers may round otherwise in
another order. -/
def normSquared [Add α] [Mul α] [Zero α] (A : DenseMatrix α m n) : α :=
  sumTerms n fun j => sumTerms m fun i => A.get i j * A.get i j

/-- The square root of the sum of the squares of all entries. -/
def norm [Add α] [Mul α] [Zero α] [SquareRoot α] (A : DenseMatrix α m n) : α := sqrt A.normSquared

/-- How far the columns are from being orthonormal: the norm of `AᵀA − I`. -/
def orthonormalityError [Add α] [Sub α] [Mul α] [Zero α] [One α] [SquareRoot α]
    (A : DenseMatrix α m n) : α :=
  (A.transpose * A - identity n).norm

@[simp] theorem get_ofFn (entry : Fin m → Fin n → α) (i : Fin m) (j : Fin n) :
    (ofFn entry).get i j = entry i j := by simp [ofFn, get]

@[simp] theorem get_transpose (A : DenseMatrix α m n) (i : Fin n) (j : Fin m) :
    A.transpose.get i j = A.get j i := by simp [transpose]

@[simp] theorem get_map {β : Type v} (f : α → β) (A : DenseMatrix α m n) (i : Fin m) (j : Fin n) :
    (A.map f).get i j = f (A.get i j) := by simp [map, get]

end DenseMatrix

end SignHash
