import SignHash.Linear.Tridiagonal

/-!
# Bidiagonal form

A square matrix becomes `U B Vᵀ` with `B` zero but on its diagonal and the entries above it. A
reflection from the left clears the first column, one from the right the first row behind its second
entry, and the block that is left goes on in the same way.
-/

namespace SignHash

variable {n : Nat}

/-- A bidiagonal matrix between two orthogonal ones. -/
structure Bidiagonal (n : Nat) where
  /-- The diagonal. -/
  diagonal : Vector Double n
  /-- The entries above the diagonal, from the top; the last place is unused. -/
  above : Vector Double n
  /-- The columns of the left matrix. -/
  left : Vector (Vector Double n) n
  /-- The rows of the right matrix. -/
  right : Vector (Vector Double n) n

/-- Vectors reflected across an axis, unless it is zero. -/
def reflectAll {m : Nat} (axis : Vector Double n) (sign : Double)
    (vectors : Vector (Vector Double n) m) : Vector (Vector Double n) m :=
  if (dotProduct axis axis).isZero then vectors else vectors.map (Reflection.apply axis sign)

/-- The bidiagonal form of a square matrix, given by its columns. -/
def bidiagonalize : (n : Nat) → Vector (Vector Double n) n → Bidiagonal n
  | 0, _ => ⟨#v[], #v[], #v[], #v[]⟩
  | 1, columns =>
    let down := Reflection.clearing columns[0]
    ⟨#v[down.value.abs], #v[0], reflectAll down.axis down.value.signum (borderWithOne #v[]),
      #v[#v[1]]⟩
  | n + 2, columns =>
    let down := Reflection.clearing columns[0]
    let others : Vector (Vector Double (n + 2)) (n + 1) := Vector.ofFn fun j => columns[j.succ]
    let others :=
      if down.proper then others.map (Reflection.apply down.axis down.value.signum) else others
    let across := Reflection.clearing (others.map (·[0]))
    let rows : Vector (Vector Double (n + 1)) (n + 1) :=
      Vector.ofFn fun i => others.map (·[i.succ])
    let rows :=
      if across.proper then rows.map (Reflection.apply across.axis across.value.signum) else rows
    let rest := bidiagonalize (n + 1) (Vector.ofFn fun j => rows.map (·[j]))
    ⟨prepend down.value.abs rest.diagonal, prepend across.value.abs rest.above,
      reflectAll down.axis down.value.signum (borderWithOne rest.left),
      borderWithOne (reflectAll across.axis across.value.signum rest.right)⟩

end SignHash
