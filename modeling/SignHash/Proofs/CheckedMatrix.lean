import SignHash.Fit.Basic
import SignHash.Proofs.Counts
import SignHash.Proofs.Fallible
import SignHash.Proofs.Matrix

/-!
# Matrices with checks

A matrix as a program holds it: its numbers of rows and columns are only known as the program runs. Each
operation checks what it takes for granted, that there is room for the result, that an entry which is
read is there, that shapes go together and that a divisor is not zero, and stops the program otherwise.
Where the checks pass, it does what the operation on matrices of known shape does.

What finds eigenvalues and singular values is an argument. It may have no result for a matrix: it goes by
iterations that need not end, and stops the program over numbers that it cannot put in order.
-/

namespace SignHash

/-! ## Halting -/

/-- What stops a program on the spot. -/
inductive Trap where
  /-- An entry is read that is not there. -/
  | place
  /-- Matrices do not go together, or a matrix is empty that must not be. -/
  | shape
  /-- A number is divided by zero. -/
  | division
  /-- There are not enough addresses for what is asked for. -/
  | capacity
  /-- A solver has no result: it stops the program, or goes on for ever. -/
  | unsolved
  deriving DecidableEq

/-- Why a computation with checks has no result. -/
inductive Halt where
  /-- An operation fails. -/
  | error (cause : Error)
  /-- The program is stopped. -/
  | trap (cause : Trap)
  deriving DecidableEq

/-- Room for so many numbers. -/
def reserve (count : Nat) : Except Halt Unit :=
  if count ≤ traceLimit then .ok () else .error (.trap .capacity)

/-- The item at a place of a list. -/
def lookUp {α : Type} (items : List α) (i : Nat) : Except Halt α :=
  match items[i]? with
  | some a => .ok a
  | none => .error (.trap .place)

/-- What a solver finds, if it has a result. -/
def solved {α : Type} : Option α → Except Halt α
  | some a => .ok a
  | none => .error (.trap .unsolved)

/-- A quotient. -/
def divide (x y : Double) : Except Halt Double :=
  if y.isZero then .error (.trap .division) else .ok (x / y)

@[simp] theorem solved_some {α : Type} (a : α) : solved (some a) = .ok a := rfl

@[simp] theorem solved_none {α : Type} : solved (none : Option α) = .error (.trap .unsolved) := rfl

theorem ok_bind {ε α β : Type} (a : α) (f : α → Except ε β) : (Except.ok a >>= f) = f a := rfl

theorem error_bind {ε α β : Type} (e : ε) (f : α → Except ε β) :
    (Except.error e >>= f) = .error e := rfl

theorem exists_ok_of_isSome {ε α : Type} {r : Except ε α} (h : r.toOption.isSome = true) :
    ∃ a, r = .ok a := by
  cases r with
  | error e => cases h
  | ok a => exact ⟨a, rfl⟩

/-- So much room can be asked for. -/
theorem reserve_eq_ok {count : Nat} (h : count ≤ traceLimit) : reserve count = .ok () := if_pos h

theorem reserve_eq_error {count : Nat} (h : traceLimit < count) :
    reserve count = .error (.trap .capacity) := if_neg (Nat.not_le.mpr h)

theorem lookUp_eq_ok {α : Type} {items : List α} {i : Nat} {a : α} (h : items[i]? = some a) :
    lookUp items i = .ok a := by
  rw [lookUp, h]

theorem divide_eq_ok {x y : Double} (h : 0 < y) : divide x y = .ok (x / y) := by
  rw [divide, Double.isZero_of_pos h]
  exact if_neg nofun

/-- If all entries have results, so has the vector of them. -/
theorem ofFnM_eq_ok {ε α : Type} {n : Nat} {f : Fin n → Except ε α} {g : Fin n → α}
    (h : ∀ i, f i = .ok (g i)) : Vector.ofFnM f = .ok (Vector.ofFn g) := by
  rw [funext h]
  exact Vector.ofFnM_pure

/-! ## Solvers -/

/-- What eigenvalues and singular values are found with; `none` where there is no result. -/
structure Solvers where
  /-- The eigenvalues and eigenvectors of a symmetric matrix. -/
  eigen : {n : Nat} → DenseMatrix Double n n → Option (Eigen Double n)
  /-- The singular value decomposition of a matrix. -/
  svd : {n : Nat} → DenseMatrix Double n n → Option (Svd Double n)

/-- The solvers that `fit` uses, which have a result for every matrix. -/
def Solvers.total : Solvers := ⟨fun A => some (symmetricEigen A), fun A => some (singularValues A)⟩

/-! ## Matrices -/

/-- A matrix and its shape. -/
structure Grid where
  /-- The number of rows. -/
  rows : Nat
  /-- The number of columns. -/
  columns : Nat
  /-- The entries. -/
  matrix : DenseMatrix Double rows columns

namespace Grid

variable {l m n : Nat}

/-- A matrix that room is made for. -/
def store (A : DenseMatrix Double m n) : Except Halt Grid := do
  reserve (m * n)
  return ⟨m, n, A⟩

/-- The matrix as one of the given shape. -/
def shaped (A : Grid) (m n : Nat) : Except Halt (DenseMatrix Double m n) :=
  if h : A.rows = m ∧ A.columns = n then .ok (h.1 ▸ h.2 ▸ A.matrix) else .error (.trap .shape)

/-- The entry in a row and a column. -/
def entry (A : Grid) (i j : Nat) : Except Halt Double :=
  if h : i < A.rows ∧ j < A.columns then .ok (A.matrix.get ⟨i, h.1⟩ ⟨j, h.2⟩)
  else .error (.trap .place)

/-- The matrix with given entries. -/
def ofFn (m n : Nat) (entry : Nat → Nat → Except Halt Double) : Except Halt Grid := do
  reserve (m * n)
  let rows ← Vector.ofFnM fun i : Fin m => Vector.ofFnM fun j : Fin n => entry i j
  return ⟨m, n, ⟨rows⟩⟩

/-- The matrix whose entries are listed row by row. -/
def ofList (m n : Nat) (entries : List Double) : Except Halt Grid :=
  if entries.length = m * n then ofFn m n fun i j => lookUp entries (i * n + j)
  else .error (.trap .shape)

/-- Rows and columns exchanged. -/
def transpose (A : Grid) : Except Halt Grid := store A.matrix.transpose

/-- The product. -/
def mul (A B : Grid) : Except Halt Grid := do store (A.matrix * (← B.shaped A.columns B.columns))

/-- The difference. -/
def sub (A B : Grid) : Except Halt Grid := do store (A.matrix - (← B.shaped A.rows A.columns))

/-- The matrix with a function applied to every entry. -/
def map (f : Double → Double) (A : Grid) : Except Halt Grid := store (A.matrix.map f)

/-- The matrix with every entry divided by a count. -/
def divideBy (A : Grid) (count : Nat) : Except Halt Grid :=
  ofFn A.rows A.columns fun i j => do divide (← A.entry i j) (OfCount.ofCount count)

/-- The eigenvalues, as a column, and the eigenvectors, as columns, of a square matrix. -/
def eigen (solvers : Solvers) (A : Grid) : Except Halt (Grid × Grid) := do
  if A.rows = 0 then .error (.trap .shape)
  else
    let e ← solved (solvers.eigen (← A.shaped A.rows A.rows))
    return (← store (.ofColumns #v[e.values]), ← store (.ofColumns e.vectors))

/-- The orthogonal factors of a square matrix. -/
def factors (solvers : Solvers) (A : Grid) : Except Halt (Grid × Grid) := do
  if A.rows = 0 then .error (.trap .shape)
  else
    let s ← solved (solvers.svd (← A.shaped A.rows A.rows))
    return (← store s.left, ← store s.right)

variable {A : DenseMatrix Double m n}

/-- A matrix that there is room for is kept as it is. -/
theorem store_eq_ok (room : m * n ≤ traceLimit) : store A = .ok ⟨m, n, A⟩ := by
  rw [store, reserve_eq_ok room]
  rfl

theorem store_eq_error (full : traceLimit < m * n) : store A = .error (.trap .capacity) := by
  rw [store, reserve_eq_error full]
  rfl

@[simp] theorem shaped_mk (A : DenseMatrix Double m n) : (mk m n A).shaped m n = .ok A :=
  dif_pos ⟨rfl, rfl⟩

@[simp] theorem entry_mk (A : DenseMatrix Double m n) (i : Fin m) (j : Fin n) :
    (mk m n A).entry i j = .ok (A.get i j) :=
  dif_pos ⟨i.isLt, j.isLt⟩

/-- Entries that are all there make up the matrix that they are the entries of. -/
theorem ofFn_eq_ok {entry : Nat → Nat → Except Halt Double} (room : m * n ≤ traceLimit)
    (h : ∀ (i : Fin m) (j : Fin n), entry i j = .ok (A.get i j)) :
    ofFn m n entry = .ok ⟨m, n, A⟩ := by
  have hrows : (Vector.ofFnM fun i : Fin m => Vector.ofFnM fun j : Fin n => entry i j) =
      .ok (DenseMatrix.ofFn A.get).rows := ofFnM_eq_ok fun i => ofFnM_eq_ok (h i)
  have hsame : DenseMatrix.ofFn A.get = A := DenseMatrix.ext fun i j => DenseMatrix.get_ofFn _ i j
  rw [ofFn, reserve_eq_ok room, hrows, hsame]
  rfl

/-- The list of a matrix is read as the matrix. -/
theorem ofList_toList (A : DenseMatrix Double m n) (room : m * n ≤ traceLimit) :
    ofList m n A.toList = .ok ⟨m, n, A⟩ := by
  rw [ofList, if_pos A.length_toList]
  exact ofFn_eq_ok room fun i j => lookUp_eq_ok (A.getElem?_toList i j)

theorem transpose_mk (A : DenseMatrix Double m n) (room : n * m ≤ traceLimit) :
    (mk m n A).transpose = .ok ⟨n, m, A.transpose⟩ := store_eq_ok room

/-- Where the inner sizes agree, no place is missed in a product, and only its room is in question. -/
theorem mul_mk (A : DenseMatrix Double l m) (B : DenseMatrix Double m n) :
    (mk l m A).mul ⟨m, n, B⟩ = store (A * B) := by
  rw [mul, shaped_mk]
  rfl

/-- Matrices of one shape are subtracted without missing a place. -/
theorem sub_mk (A B : DenseMatrix Double m n) : (mk m n A).sub ⟨m, n, B⟩ = store (A - B) := by
  rw [sub, shaped_mk]
  rfl

/-- A count that is not zero can be divided by. -/
theorem divideBy_mk (A : DenseMatrix Double m n) {count : Nat} (pos : 0 < count)
    (room : m * n ≤ traceLimit) :
    (mk m n A).divideBy count = .ok ⟨m, n, A.map (· / OfCount.ofCount count)⟩ := by
  refine ofFn_eq_ok room fun i j => ?_
  rw [entry_mk, DenseMatrix.get_map]
  exact divide_eq_ok (Double.pos_ofCount pos)

/-- A solver that has a result for a square matrix has one for its grid. -/
theorem eigen_mk (solvers : Solvers) (A : DenseMatrix Double n n) (pos : 0 < n)
    (room : n * n ≤ traceLimit) :
    (mk n n A).eigen solvers = (solved (solvers.eigen A)).map fun e =>
      (⟨n, 1, .ofColumns #v[e.values]⟩, ⟨n, n, .ofColumns e.vectors⟩) := by
  have hcolumn : n * 1 ≤ traceLimit := (Nat.mul_le_mul_left n pos).trans room
  rw [eigen, if_neg (Nat.ne_of_gt pos), shaped_mk, ok_bind]
  cases solvers.eigen A with
  | none => rfl
  | some e =>
    simp only [solved_some, ok_bind, store_eq_ok hcolumn, store_eq_ok room]
    rfl

/-- So for the orthogonal factors. -/
theorem factors_mk (solvers : Solvers) (A : DenseMatrix Double n n) (pos : 0 < n)
    (room : n * n ≤ traceLimit) :
    (mk n n A).factors solvers = (solved (solvers.svd A)).map fun s =>
      (⟨n, n, s.left⟩, ⟨n, n, s.right⟩) := by
  rw [factors, if_neg (Nat.ne_of_gt pos), shaped_mk, ok_bind]
  cases solvers.svd A with
  | none => rfl
  | some s =>
    simp only [solved_some, ok_bind, store_eq_ok room]
    rfl

end Grid

end SignHash
