import SignHash.Linear.Reflection

/-!
# Tridiagonal form

A symmetric matrix `A` becomes a tridiagonal one, `QᵀAQ`, one column at a time: a reflection clears
the first column below its second entry, and the block that is left goes on in the same way.
-/

namespace SignHash

variable {n : Nat}

/-- A symmetric tridiagonal matrix and the orthogonal `Q` that leads to it. -/
structure Tridiagonal (n : Nat) where
  /-- The diagonal. -/
  diagonal : Vector Double n
  /-- The entries beside the diagonal, from the top; the last place is unused. -/
  beside : Vector Double n
  /-- The columns of `Q`. -/
  columns : Vector (Vector Double n) n

/-- The matrix without its first row and column. -/
def DenseMatrix.trailing {α : Type} {m n : Nat} (A : DenseMatrix α (m + 1) (n + 1)) :
    DenseMatrix α m n :=
  DenseMatrix.ofFn fun i j => A.get i.succ j.succ

/-- A symmetric matrix reflected across an axis on both sides. Only the entries on and below the
diagonal are used; the rest follows by symmetry. -/
def reflectBothSides (axis : Vector Double n) (A : DenseMatrix Double n n) :
    DenseMatrix Double n n :=
  let entry (i j : Fin n) : Double := if j ≤ i then A.get i j else A.get j i
  let image : Vector Double n :=
    Vector.ofFn fun i => Double.two * sumTerms n fun j => entry i j * axis.get j
  let twice := Double.two * dotProduct axis image
  DenseMatrix.ofFn fun i j =>
    let hi := if j ≤ i then i else j
    let lo := if j ≤ i then j else i
    A.get hi lo - image.get hi * axis.get lo - axis.get hi * image.get lo
      + twice * axis.get hi * axis.get lo

/-- The tridiagonal form of a symmetric matrix. -/
def tridiagonalize : (n : Nat) → DenseMatrix Double n n → Tridiagonal n
  | 0, _ => ⟨#v[], #v[], #v[]⟩
  | 1, A => ⟨#v[A.get 0 0], #v[0], #v[#v[1]]⟩
  | n + 2, A =>
    let reflection := Reflection.clearing (Vector.ofFn fun i : Fin (n + 1) => A.get i.succ 0)
    let block :=
      if reflection.proper then reflectBothSides reflection.axis A.trailing else A.trailing
    let rest := tridiagonalize (n + 1) block
    ⟨prepend (A.get 0 0) rest.diagonal, prepend reflection.value.abs rest.beside,
      borderWithOne (rest.columns.map (Reflection.apply reflection.axis reflection.value.signum))⟩

end SignHash
