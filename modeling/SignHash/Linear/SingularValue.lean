import SignHash.Linear.Bidiagonal
import SignHash.Linear.SymmetricEigen

/-!
# Singular values

A square matrix is a product `U S Vᵀ` of orthogonal matrices around a diagonal one. It is found by
implicitly shifted rotations of the bidiagonal form, from both sides. Entries above the diagonal
that are negligible split the matrix, and a diagonal entry that is as good as zero lets the entries
in its row and column be rotated away. In the end the singular values are made positive and sorted,
the largest first.
-/

namespace SignHash

universe u

variable {n : Nat}

/-- A singular value decomposition of a square matrix. -/
structure Svd (α : Type u) (n : Nat) where
  /-- The orthogonal factor on the left. -/
  left : DenseMatrix α n n
  /-- The singular values, the largest first. -/
  values : Vector α n
  /-- The orthogonal factor on the right, as it stands in the product. -/
  right : DenseMatrix α n n

/-- The length of the hypotenuse of a right triangle. -/
def hypotenuse (x y : Double) : Double :=
  let long := if x.abs < y.abs then y.abs else x.abs
  let short := if x.abs < y.abs then x.abs else y.abs
  if long.isZero then long
  else
    let ratio := short / long
    long * sqrt (1 + ratio * ratio)

namespace Bidiagonal

/-- What counts as zero in a matrix with entries of at most one. -/
def least : Double := ⟨0x3cd4000000000000⟩

/-- The matrix with an entry of the diagonal replaced. -/
def setDiagonal (b : Bidiagonal n) (i : Nat) (x : Double) : Bidiagonal n :=
  { b with diagonal := b.diagonal.setIfInBounds i x }

/-- The matrix with an entry above the diagonal replaced. -/
def setAbove (b : Bidiagonal n) (i : Nat) (x : Double) : Bidiagonal n :=
  { b with above := b.above.setIfInBounds i x }

/-- Whether the entry above the diagonal in row `m` is negligible. -/
def negligible (b : Bidiagonal n) (m : Nat) : Bool :=
  (entryAt b.above m).abs ≤
    least * ((entryAt b.diagonal (m + 1)).abs + (entryAt b.diagonal m).abs)

/-- Whether the entry of the diagonal in row `m` is as good as zero. -/
def vanishes (b : Bidiagonal n) (m : Nat) : Bool := (entryAt b.diagonal m).abs ≤ least

/-! ## Rotating entries away -/

/-- Rotations of row `i` with rows `k + 1` and on, which push the entry `x` of row `i` to the
right until it is gone; `count` of them. -/
def pushRight (i : Nat) : Nat → Nat → Double → Double → Bidiagonal n → Bidiagonal n
  | 0, _, _, _, b => b
  | count + 1, k, x, y, b =>
    match PlaneRotation.cancelFirst? x y with
    | none => b
    | some (g, length) =>
      let b := { b.setDiagonal (k + 1) length with left := g.turn i (k + 1) b.left }
      let next := entryAt b.above (k + 1)
      if count = 0 then b
      else
        pushRight i count (k + 1) (-g.sin * next) (entryAt b.diagonal (k + 2))
          (b.setAbove (k + 1) (next * g.cos))

/-- Row `i`, whose diagonal entry is zero, cleared up to column `last`. -/
def clearRow (b : Bidiagonal n) (i last : Nat) : Bidiagonal n :=
  pushRight i (last - i) i (entryAt b.above i) (entryAt b.diagonal (i + 1)) (b.setAbove i 0)

/-- Rotations of column `i + 1` with columns `k` and before it, which push the entry `y` of column
`i + 1` up until it is gone; the next one is of column `k - 1`. -/
def pushUp (i : Nat) : Nat → Double → Double → Bidiagonal n → Bidiagonal n
  | 0, x, y, b =>
    match PlaneRotation.cancelSecond? x y with
    | none => b
    | some (g, length) => { b.setDiagonal 0 length with right := g.turn 0 (i + 1) b.right }
  | k + 1, x, y, b =>
    match PlaneRotation.cancelSecond? x y with
    | none => b
    | some (g, length) =>
      let b := { b.setDiagonal (k + 1) length with right := g.turn (k + 1) (i + 1) b.right }
      let next := entryAt b.above k
      pushUp i k (entryAt b.diagonal k) (g.sin * next) (b.setAbove k (next * g.cos))

/-- Column `i + 1`, whose diagonal entry is zero, cleared. -/
def clearColumn (b : Bidiagonal n) (i : Nat) : Bidiagonal n :=
  pushUp i i (entryAt b.diagonal i) (entryAt b.above i) (b.setAbove i 0)

/-- The matrix with the vanishing diagonal entry of row `m` made zero, and its row, up to column
`last`, and column cleared. -/
def clearCross (b : Bidiagonal n) (m last : Nat) : Bidiagonal n :=
  let b := (b.setDiagonal m 0).clearRow m last
  match m with
  | 0 => b
  | above + 1 => b.clearColumn above

/-! ## Blocks -/

/-- The last row, up to the given one, that belongs to a block of more than one row; zero if none
does. Negligible and vanishing entries on the way are removed. -/
def lastRow (b : Bidiagonal n) : Nat → Bidiagonal n × Nat
  | 0 => (b, 0)
  | m + 1 =>
    if (entryAt b.above m).isZero || b.negligible m then (b.setAbove m 0).lastRow m
    else if b.vanishes m then (b.clearCross m (m + 1)).lastRow m
    else if b.vanishes (m + 1) then ((b.setDiagonal (m + 1) 0).clearColumn m).lastRow m
    else (b, m + 1)

/-- The first row of the block that ends at row `last` and holds the given row. -/
def firstRow (b : Bidiagonal n) (last : Nat) : Nat → Bidiagonal n × Nat
  | 0 => (b, 0)
  | m + 1 =>
    if b.negligible m then (b.setAbove m 0, m + 1)
    else if b.vanishes m then (b.clearCross m last, m + 1)
    else b.firstRow last m

/-! ## Sweeps -/

/-- The rotations from row `k` on, `count` of them: one from the right that cancels the pair `x`,
`y`, and one from the left that cancels the entry which the first leaves below the diagonal. -/
def chase (first last : Nat) : Nat → Nat → Double → Double → Bidiagonal n → Bidiagonal n
  | 0, _, _, _, b => b
  | count + 1, k, x, y, b =>
    match PlaneRotation.cancelSecond? x y with
    | none => b
    | some (g, length) =>
      let b := if first < k then b.setAbove (k - 1) length else b
      let corner := g.first (entryAt b.diagonal k) (entryAt b.above k)
      let beside := g.second (entryAt b.diagonal k) (entryAt b.above k)
      let below := g.first 0 (entryAt b.diagonal (k + 1))
      let across := g.second 0 (entryAt b.diagonal (k + 1))
      let next := if k + 1 = last then 0 else entryAt b.above (k + 1)
      let (h, length) :=
        (PlaneRotation.cancelSecond? corner below).getD (PlaneRotation.identity, corner)
      let middle := h.first beside across
      let b : Bidiagonal n :=
        { diagonal := (b.diagonal.setIfInBounds k length).setIfInBounds (k + 1)
            (h.second beside across)
          above := b.above.setIfInBounds k middle
          left := h.turn k (k + 1) b.left
          right := g.turn k (k + 1) b.right }
      let b := if k + 1 = last then b else b.setAbove (k + 1) (h.second 0 next)
      chase first last count (k + 1) middle (h.first 0 next) b

/-- One sweep over a block of more than two rows. -/
def sweep (b : Bidiagonal n) (first last : Nat) : Bidiagonal n :=
  let dm := entryAt b.diagonal (last - 1)
  let dn := entryAt b.diagonal last
  let fm := entryAt b.above (last - 1)
  let fl := entryAt b.above (last - 2)
  let shift := cornerShift (dm * dm + fl * fl) (dn * dn + fm * fm) (dm * fm)
  let d := entryAt b.diagonal first
  chase first last (last - first) first (d * d - shift) (d * entryAt b.above first) b

/-- A block of two rows, `i` and the next, made diagonal. -/
def solvePair (b : Bidiagonal n) (i : Nat) : Bidiagonal n :=
  let a := entryAt b.diagonal i
  let c := entryAt b.diagonal (i + 1)
  let f := entryAt b.above i
  let sum := hypotenuse (a + c) f + hypotenuse (a - c) f
  let small := a * c * Double.two / sum
  let large := Double.half * sum
  let (g, scale) := PlaneRotation.ofRatio (a * f) (small * small - a * a)
  let small := small * scale
  let large := large * scale
  let (h, scale) := PlaneRotation.ofRatio ((a * g.cos + f * g.sin) / small) (c * g.sin / small)
  { diagonal := (b.diagonal.setIfInBounds i (small * scale)).setIfInBounds (i + 1) (large * scale)
    above := b.above.setIfInBounds i 0
    left := h.inverse.turn i (i + 1) b.left
    right := g.inverse.turn i (i + 1) b.right }

/-- Blocks worked on up to the given last row, until none is left or `fuel` steps are done. -/
def diagonalize : Nat → Nat → Bidiagonal n → Bidiagonal n
  | 0, _, b => b
  | fuel + 1, last, b =>
    match b.lastRow last with
    | (b, 0) => b
    | (b, m + 1) =>
      let (b, first) := b.firstRow (m + 1) m
      if first = m then diagonalize fuel m (b.solvePair m)
      else diagonalize fuel (m + 1) (b.sweep first (m + 1))

end Bidiagonal

/-- The places of singular values, the largest value first. -/
def descendingPlaces (values : Vector Double n) : List (Fin n) :=
  (List.finRange n).mergeSort fun i j => values.get j ≤ values.get i

/-- The singular value decomposition of a square matrix, which is first scaled to entries of at most
one. As with `symmetricEigen`, there is always a result. -/
def singularValues (A : DenseMatrix Double n n) : Svd Double n :=
  let scale := A.largestMagnitude
  let columns : Vector (Vector Double n) n := (A.scaledBy scale).transpose.rows
  let b := Bidiagonal.diagonalize (10000 * n) (n - 1) (bidiagonalize n columns)
  let values := b.diagonal.map (· * scale)
  let places := descendingPlaces (values.map (·.abs))
  let place (i : Fin n) : Fin n := places.getD i i
  let flipped (i : Fin n) : Bool := values.get i < 0
  { left := DenseMatrix.ofColumns (Vector.ofFn fun i =>
      if flipped (place i) then (b.left.get (place i)).map (-·)
      else b.left.get (place i))
    values := Vector.ofFn fun i => (values.get (place i)).abs
    right := ⟨Vector.ofFn fun i => b.right.get (place i)⟩ }

end SignHash
