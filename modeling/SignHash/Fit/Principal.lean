import SignHash.Error
import SignHash.Linear.SymmetricEigen

/-!
# Principal directions

The directions in which the rows of a matrix vary most: eigenvectors of the covariance, for the
largest eigenvalues, in decreasing order. An eigenvector is only determined up to its sign, so each
is turned until the first of its largest entries is positive. How a solver orders and signs what it
finds has no bearing on the result.
-/

namespace SignHash

variable {n d : Nat}

/-- The sum of the products of centred columns, over one less than the number of rows. -/
def covariance (centred : DenseMatrix Double n d) : DenseMatrix Double d d :=
  let degrees : Double := OfCount.ofCount (max (n - 1) 1)
  (centred.transpose * centred).map (· / degrees)

/-- The places of eigenvalues, the largest first; equal ones stay in their order. -/
def decreasingPlaces (values : Vector Double d) : Vector (Fin d) d :=
  ⟨((List.finRange d).mergeSort fun a b =>
      ((Double.totalOrder (values.get b) (values.get a)).then (compare a b)).isLE).toArray, by simp⟩

/-- The first entry of largest magnitude, zero if there is no other. -/
def pivot (x : Vector Double d) : Double :=
  x.foldl (fun best x => if best.abs < x.abs then x else best) 0

/-- A direction with its sign chosen so that the pivot is positive. -/
def positiveForm (x : Vector Double d) : Vector Double d := if pivot x < 0 then x.map (-·) else x

/-- Eigenvalues below this part of the largest count as zero. -/
def rankTolerance : Double := ⟨0x3ddb7cdfd9d7bdbb⟩

/-- The directions of the `k` largest eigenvalues, as columns. The last of these eigenvalues must
not be as good as zero. -/
def principalDirections (eigen : Eigen Double d) (k : Nat) :
    Except Error (DenseMatrix Double d k) :=
  if h : 0 < k ∧ k ≤ d then
    let places := decreasingPlaces eigen.values
    let largest := eigen.values[places[0]]
    let smallest := eigen.values[places[k - 1]]
    if 0 < largest ∧ ¬ smallest ≤ largest * rankTolerance then
      .ok (DenseMatrix.ofColumns (Vector.ofFn fun c : Fin k =>
        positiveForm eigen.vectors[places[c.val]]))
    else .error (.insufficientData (.lowRank k))
  else .error (.insufficientData (.lowRank k))

end SignHash
