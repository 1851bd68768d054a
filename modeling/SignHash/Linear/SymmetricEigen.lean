import SignHash.Linear.PlaneRotation
import SignHash.Linear.Tridiagonal

/-!
# Eigenvectors of symmetric matrices

The eigenvalues and eigenvectors of a symmetric matrix, by implicitly shifted rotations of its
tridiagonal form. Entries beside the diagonal that are negligible against their neighbours split the
matrix; the last block that is not yet diagonal is worked on until no such block is left.
-/

namespace SignHash

variable {n : Nat}

/-- Eigenvalues with eigenvectors, in no particular order. -/
structure Eigen (α : Type) (n : Nat) where
  /-- The eigenvalues. -/
  values : Vector α n
  /-- For each eigenvalue its eigenvector. -/
  vectors : Vector (Vector α n) n

/-- The distance from one to the next larger number. -/
def machineEpsilon : Double := ⟨0x3cb0000000000000⟩

/-- An entry of a vector, zero beyond its end. -/
def entryAt (v : Vector Double n) (i : Nat) : Double := v.getD i 0

/-- The eigenvalue of a symmetric block of two rows, with entries `a`, `c` on the diagonal and `b`
beside it, that is nearer to `c`. -/
def cornerShift (a c b : Double) : Double :=
  let square := b * b
  if square.isZero then c
  else
    let d := (a - c) * Double.half
    c - square / (d + d.signum * sqrt (d * d + square))

namespace Tridiagonal

/-- Whether the entry beside the diagonal between `m` and `m + 1` is too large to be neglected. -/
def couples (t : Tridiagonal n) (m : Nat) : Bool :=
  machineEpsilon * ((entryAt t.diagonal (m + 1)).abs + (entryAt t.diagonal m).abs)
    < (entryAt t.beside m).abs

/-- Whether the entry beside the diagonal between `m` and `m + 1` is zero or as good as zero. -/
def splits (t : Tridiagonal n) (m : Nat) : Bool :=
  (entryAt t.beside m).isZero ||
    (entryAt t.beside m).abs ≤
      machineEpsilon * ((entryAt t.diagonal (m + 1)).abs + (entryAt t.diagonal m).abs)

/-- The last row, up to the given one, that is coupled to the row above it; zero if none is. -/
def lastRow (t : Tridiagonal n) : Nat → Nat
  | 0 => 0
  | m + 1 => if t.couples m then m + 1 else t.lastRow m

/-- The first row of the block that the given row belongs to. -/
def firstRow (t : Tridiagonal n) : Nat → Nat
  | 0 => 0
  | m + 1 => if t.splits m then m + 1 else t.firstRow m

/-- The matrix with the entry above a row cleared. -/
def splitAbove (t : Tridiagonal n) : Nat → Tridiagonal n
  | 0 => t
  | m + 1 => { t with beside := t.beside.setIfInBounds m 0 }

/-- A rotation of rows and columns `i` and `i + 1`, with the entry above them replaced, and the pair
that the next rotation has to cancel. -/
def rotateAt (t : Tridiagonal n) (first last i : Nat) (g : PlaneRotation) (length : Double) :
    Tridiagonal n × Double × Double :=
  let beside := if first < i then t.beside.setIfInBounds (i - 1) length else t.beside
  let a := entryAt t.diagonal i
  let c := entryAt t.diagonal (i + 1)
  let b := entryAt beside i
  let cc := g.cos * g.cos
  let ss := g.sin * g.sin
  let cs := g.cos * g.sin
  let twice := cs * Double.two * b
  let diagonal := (t.diagonal.setIfInBounds i (cc * a + ss * c - twice)).setIfInBounds (i + 1)
    (ss * a + cc * c + twice)
  let middle := cs * (a - c) + b * (cc - ss)
  let beside := beside.setIfInBounds i middle
  let columns := g.turn i (i + 1) t.columns
  if i + 1 < last then
    let below := entryAt beside (i + 1)
    (⟨diagonal, beside.setIfInBounds (i + 1) (below * g.cos), columns⟩, middle, -g.sin * below)
  else (⟨diagonal, beside, columns⟩, 0, 0)

/-- The rotations from row `i` on, `count` of them; they end early at a pair with nothing to
cancel. -/
def chase (first last : Nat) : Nat → Nat → Double → Double → Tridiagonal n → Tridiagonal n
  | 0, _, _, _, t => t
  | count + 1, i, x, y, t =>
    match PlaneRotation.cancelSecond? x y with
    | none => t
    | some (g, length) =>
      let (t, x, y) := t.rotateAt first last i g length
      chase first last count (i + 1) x y t

/-- One sweep over a block of more than two rows, and the last row that is left to work on. -/
def sweep (t : Tridiagonal n) (first last : Nat) : Tridiagonal n × Nat :=
  let shift := cornerShift (entryAt t.diagonal (last - 1)) (entryAt t.diagonal last)
    (entryAt t.beside (last - 1))
  let t := chase first last (last - first) first (entryAt t.diagonal first - shift)
    (entryAt t.beside first) t
  (t, if t.couples (last - 1) then last else last - 1)

/-- A block of two rows, `i` and the next, made diagonal. -/
def solvePair (t : Tridiagonal n) (i : Nat) : Tridiagonal n :=
  let a := entryAt t.diagonal i
  let c := entryAt t.diagonal (i + 1)
  let b := entryAt t.beside i
  let middle := (a + c) * Double.half
  let difference := (a - c) * Double.half
  let radius := sqrt (b * b + difference * difference)
  let columns :=
    match PlaneRotation.ofRatio? (middle + radius - c) b machineEpsilon with
    | some (g, _) => g.inverse.turn i (i + 1) t.columns
    | none => t.columns
  { t with
    diagonal := (t.diagonal.setIfInBounds i (middle + radius)).setIfInBounds (i + 1)
      (middle - radius)
    columns := columns }

/-- Blocks worked on up to the given last row, until none is left or `fuel` steps are done. -/
def diagonalize : Nat → Nat → Tridiagonal n → Tridiagonal n
  | 0, _, t => t
  | fuel + 1, last, t =>
    match t.lastRow last with
    | 0 => t
    | m + 1 =>
      let first := t.firstRow m
      let t := t.splitAbove first
      if first = m then diagonalize fuel m (t.solvePair m)
      else
        let (t, last) := t.sweep first (m + 1)
        diagonalize fuel last t

end Tridiagonal

/-- The largest magnitude of an entry. -/
def DenseMatrix.largestMagnitude {m n : Nat} (A : DenseMatrix Double m n) : Double :=
  A.toList.foldl (fun best x => if best < x.abs then x.abs else best) 0

/-- The matrix with every entry divided by a number, unless that is zero. -/
def DenseMatrix.scaledBy {m n : Nat} (A : DenseMatrix Double m n) (scale : Double) :
    DenseMatrix Double m n :=
  if scale.isZero then A else A.map (· / scale)

/-- The eigenvalues and eigenvectors of a symmetric matrix, which is first scaled to entries of at
most one. The steps are bounded, so there is always a result; a solver without a bound may have none
for a matrix with entries that are not finite. -/
def symmetricEigen (A : DenseMatrix Double n n) : Eigen Double n :=
  let scale := A.largestMagnitude
  let t := Tridiagonal.diagonalize (10000 * n) (n - 1) (tridiagonalize n (A.scaledBy scale))
  ⟨t.diagonal.map (· * scale), t.columns⟩

end SignHash
