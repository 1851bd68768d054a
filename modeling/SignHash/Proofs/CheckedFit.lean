import SignHash.Proofs.CheckedMatrix
import SignHash.Proofs.Directions
import SignHash.Proofs.Preparation

/-!
# Fits with checks

A fit as a program runs it, on matrices whose shapes it only knows as it runs, with every entry that is
read, every shape, every divisor and all room checked, and with any solvers for eigenvalues and singular
values. Where there is room for the components and for the covariance, each step does what it does on
matrices of known shape.
-/

namespace SignHash

/-- Where a fit stops for lack of room, it halts. -/
def Stop.halt : Stop → Halt
  | .error e => .error e
  | .fault _ => .trap .capacity

namespace Checked

variable {n d k : Nat}

/-! ## Preparation -/

/-- Components, scaled if that is asked for. -/
def scaled (normalize : Bool) (x : List Double) : Except Halt (List Double) :=
  let length := sqrt (squareSum x)
  if normalize ∧ 0 < length then x.mapM (divide · length) else .ok x

/-- The components of a corpus as the rows of a matrix. -/
def data (c : Corpus) (normalize : Bool) : Except Halt Grid := do
  reserve (c.size * c.dimension)
  let components ← c.vectors.mapM fun v => scaled normalize v.components
  Grid.ofList c.size c.dimension components.flatten

/-- The mean of each column, as a column. -/
def mean (n d : Nat) (data : Grid) : Except Halt Grid :=
  Grid.ofFn d 1 fun j _ => do
    let terms ← Vector.ofFnM fun i : Fin n => data.entry i j
    divide (sumTerms n terms.get) (OfCount.ofCount n)

/-- The rows with the mean subtracted from each. -/
def centred (n d : Nat) (data mean : Grid) : Except Halt Grid :=
  Grid.ofFn n d fun i j => return (← data.entry i j) - (← mean.entry j 0)

/-- The mean of a corpus, and its rows with the mean subtracted. -/
def prepared (c : Corpus) (normalize : Bool) : Except Halt (Grid × Grid) := do
  let data ← data c normalize
  let mean ← mean c.size c.dimension data
  return (mean, ← centred c.size c.dimension data mean)

/-! ## Principal directions -/

/-- Whether a place comes before another one by the eigenvalues there. -/
def keyBefore (a b : Nat × Double) : Bool :=
  ((Double.totalOrder b.2 a.2).then (compare a.1 b.1)).isLE

/-- The places of eigenvalues, the largest first; all that can be compared are looked up. -/
def order (d : Nat) (values : Grid) : Except Halt (List Nat) := do
  reserve d
  let keyed ← (List.finRange d).mapM fun (i : Fin d) => return (i.val, ← values.entry i 0)
  return (keyed.mergeSort keyBefore).map Prod.fst

/-- The place before the end of so many. -/
def lastPlace : Nat → Except Halt Nat
  | 0 => .error (.trap .place)
  | k + 1 => .ok k

/-- The principal directions of centred rows, as columns. -/
def directions (solvers : Solvers) (centred : Grid) (k : Nat) : Except Halt Grid := do
  let product ← (← centred.transpose).mul centred
  let covariance ← product.divideBy (max (centred.rows - 1) 1)
  let (values, vectors) ← covariance.eigen solvers
  let places ← order centred.columns values
  let largest ← values.entry (← lookUp places 0) 0
  let smallest ← values.entry (← lookUp places (← lastPlace k)) 0
  if 0 < largest ∧ ¬smallest ≤ largest * rankTolerance then
    let found ← Grid.ofFn centred.columns k fun i c => do vectors.entry i (← lookUp places c)
    Grid.store (.ofColumns (Vector.ofFn fun c => positiveForm (found.matrix.column c)))
  else .error (.error (.insufficientData (.lowRank k)))

/-! ## Refinement -/

section

variable (solvers : Solvers)

/-- A random rotation. -/
def startRotation (k seed : Nat) : Except Halt Grid := do
  let draws := Random.drawNormals (k * k) (Random.Generator.ofSeed (UInt64.ofNat seed))
  let entries ← Grid.ofFn k k fun i j => lookUp draws (j * k + i)
  let (left, _) ← entries.factors solvers
  return left

/-- A turn: the next rotation, and the distance of the descriptors from their signs under it. -/
def refineOnce (projected rotation : Grid) : Except Halt (Grid × Double) := do
  let signs ← (← projected.mul rotation).map binarize
  let (left, right) ← (← (← projected.transpose).mul signs).factors solvers
  let next ← left.mul right
  let rest ← (← projected.mul next).sub signs
  return (next, rest.matrix.norm)

/-- Turns until the distances have converged, at most so many. -/
def refine (tolerance : Double) (projected : Grid) :
    Nat → Option Double → Grid → Except Halt (Grid × List Double)
  | 0, _, rotation => .ok (rotation, [])
  | turns + 1, previous, rotation => do
    let (next, error) ← refineOnce solvers projected rotation
    if hasConverged tolerance previous error then return (next, [error])
    else
      let (last, errors) ← refine tolerance projected turns (some error) next
      return (last, error :: errors)

/-- The turns of a fit, each of which has room in the trace, and the distances after them. -/
def refined (p : FitParams) (seed : Nat) (centred projection : Grid) :
    Except Halt (Grid × List Double) := do
  let projected ← centred.mul projection
  let start ← startRotation solvers p.bitLength seed
  -- before it is known how many turns there will be
  reserve p.maxIterations
  refine solvers p.tolerance projected p.maxIterations none start

/-! ## Fits -/

/-- The model of a corpus. -/
def fit (c : Corpus) (p : FitParams) (drawn : Nat) : Except Halt Fit :=
  match p.issue? with
  | some issue => .error (.error (.configuration issue))
  | none =>
    match sizeIssue? c p with
    | some e => .error (.error e)
    | none => do
      let (mean, centred) ← prepared c p.normalize
      let projection ← directions solvers centred p.bitLength
      let seed := p.seed.getD drawn
      let (rotation, errors) ← refined solvers p seed centred projection
      return {
        model := {
          dimension := c.dimension
          bitLength := p.bitLength
          mean := (← mean.shaped c.dimension 1).column ⟨0, Nat.one_pos⟩
          projection := ← projection.shaped c.dimension p.bitLength
          rotation := ← rotation.shaped p.bitLength p.bitLength
          normalize := p.normalize }
        seed
        errors }

/-! ## The same with known shapes -/

/-- A matrix of normally distributed entries, which are drawn column by column. -/
def normalMatrix (k seed : Nat) : DenseMatrix Double k k :=
  let draws := (Random.drawNormals (k * k) (Random.Generator.ofSeed (UInt64.ofNat seed))).toArray
  .ofFn fun i j => draws.getD (j.val * k + i.val) 0

/-- Turns on matrices of known shape, as long as the solver has results. -/
def turns (tolerance : Double) (projected : DenseMatrix Double n k) :
    Nat → Option Double → DenseMatrix Double k k → Option (DenseMatrix Double k k × List Double)
  | 0, _, rotation => some (rotation, [])
  | count + 1, previous, rotation => do
    let signs := (projected * rotation).map binarize
    let s ← solvers.svd (projected.transpose * signs)
    let next := s.left * s.right
    let error := (projected * next - signs).norm
    if hasConverged tolerance previous error then return (next, [error])
    else
      let (last, errors) ← turns tolerance projected count (some error) next
      return (last, error :: errors)

/-- A fit that is in proportion to its corpus, on matrices of known shape. -/
def sizedFit (c : Corpus) (p : FitParams) (drawn : Nat) : Except Halt Fit := do
  let seed := p.seed.getD drawn
  let eigen ← solved (solvers.eigen (covariance (centredRows c p)))
  let projection ← (principalDirections eigen p.bitLength).mapError .error
  let start ← solved (solvers.svd (normalMatrix p.bitLength seed))
  reserve p.maxIterations
  let (rotation, errors) ← solved (turns solvers p.tolerance (centredRows c p * projection)
    p.maxIterations none start.left)
  return ⟨⟨c.dimension, p.bitLength, columnMeans (fittedRows c p), projection, rotation, p.normalize⟩,
    seed, errors⟩

end

/-! ## Room -/

/-- There are enough addresses for the components and for the covariance, and no more bits than
dimensions or descriptors. -/
structure Room (n d k : Nat) : Prop where
  bits : 0 < k
  dimensions : k ≤ d
  descriptors : k ≤ n
  components : n * d ≤ traceLimit
  covariance : d * d ≤ traceLimit

variable {solvers : Solvers} {A : DenseMatrix Double n d} {projected : DenseMatrix Double n k}

theorem Room.mul_le {m : Nat} (room : Room n d k) (h : m ≤ n ∨ m ≤ d) : m * d ≤ traceLimit := by
  rcases h with h | h
  · exact (Nat.mul_le_mul_right d h).trans room.components
  · exact (Nat.mul_le_mul_right d h).trans room.covariance

theorem Room.mul_bits_le {m : Nat} (room : Room n d k) (h : m ≤ n ∨ m ≤ d) : m * k ≤ traceLimit :=
  (Nat.mul_le_mul_left m room.dimensions).trans (room.mul_le h)

/-! ## Steps -/

theorem scaled_eq_ok (normalize : Bool) (x : List Double) :
    scaled normalize x = .ok (scaledIf normalize x) := by
  cases normalize with
  | false => rfl
  | true =>
    rw [scaled, scaledIf, if_pos rfl, scaledToOne]
    by_cases hpos : 0 < sqrt (squareSum x)
    · rw [if_pos hpos]
      exact (if_pos ⟨rfl, hpos⟩).trans (mapM_eq_ok fun a _ => divide_eq_ok hpos)
    · rw [if_neg hpos]
      exact if_neg fun h => hpos h.2

theorem data_eq_ok {c : Corpus} (normalize : Bool) (room : c.size * c.dimension ≤ traceLimit) :
    data c normalize = .ok ⟨c.size, c.dimension, scaleRows normalize c.matrix⟩ := by
  have hscaled : (c.vectors.mapM fun v => scaled normalize v.components) =
      .ok (c.vectors.map fun v => scaledIf normalize v.components) :=
    mapM_eq_ok fun v _ => scaled_eq_ok normalize v.components
  have hlist : (c.vectors.map fun v => scaledIf normalize v.components).flatten =
      (scaleRows normalize c.matrix).toList := by
    rw [toList_scaleRows, Corpus.scaledComponents, List.flatMap]
  rw [data, reserve_eq_ok room, ok_bind, hscaled, ok_bind, hlist]
  exact Grid.ofList_toList _ room

/-- The entry of a column. -/
theorem entry_column (v : Vector Double d) (i : Fin d) :
    (Grid.mk d 1 (.ofColumns #v[v])).entry i 0 = .ok (v.get i) :=
  (Grid.entry_mk _ i 0).trans (congrArg Except.ok (DenseMatrix.get_ofFn _ i 0))

theorem mean_eq_ok (pos : 0 < n) (room : d * 1 ≤ traceLimit) :
    mean n d ⟨n, d, A⟩ = .ok ⟨d, 1, .ofColumns #v[columnMeans A]⟩ := by
  refine Grid.ofFn_eq_ok room fun i j => ?_
  have hterms : (Vector.ofFnM fun r : Fin n => (Grid.mk n d A).entry r i) =
      .ok (Vector.ofFn fun r => A.get r i) := ofFnM_eq_ok fun r => Grid.entry_mk A r i
  have hget : (Vector.ofFn fun r => A.get r i).get = fun r => A.get r i := by
    funext r
    simp [Vector.get_eq_getElem]
  rw [hterms, ok_bind, hget, divide_eq_ok (Double.pos_ofCount pos), DenseMatrix.ofColumns,
    DenseMatrix.get_ofFn]
  simp [columnMeans]

theorem centred_eq_ok {v : Vector Double d} (room : n * d ≤ traceLimit) :
    centred n d ⟨n, d, A⟩ ⟨d, 1, .ofColumns #v[v]⟩ = .ok ⟨n, d, subtractFromRows v A⟩ := by
  refine Grid.ofFn_eq_ok room fun i j => ?_
  rw [Grid.entry_mk, ok_bind, entry_column, ok_bind, subtractFromRows, DenseMatrix.get_ofFn]
  rfl

theorem order_eq_ok {values : Vector Double d} (room : d ≤ traceLimit) :
    order d ⟨d, 1, .ofColumns #v[values]⟩ =
      .ok ((decreasingPlaces values).toList.map Fin.val) := by
  let keyed (i : Fin d) : Nat × Double := (i.val, values.get i)
  have hkeyed : (List.finRange d).mapM (fun (i : Fin d) => return (i.val,
      ← (Grid.mk d 1 (.ofColumns #v[values])).entry i 0)) = .ok ((List.finRange d).map keyed) := by
    refine mapM_eq_ok fun i _ => ?_
    rw [entry_column]
    rfl
  have hsorted := List.map_mergeSort (f := keyed) (r := comesBefore values) (s := keyBefore)
    (l := List.finRange d) fun a _ b _ => rfl
  rw [order, reserve_eq_ok room, ok_bind, hkeyed, ok_bind, ← hsorted, List.map_map]
  rfl

/-- The place of a column is one of a row. -/
theorem lookUp_order {values : Vector Double d} {c : Nat} (hc : c < d) :
    lookUp ((decreasingPlaces values).toList.map Fin.val) c =
      .ok (decreasingPlaces values)[c].val := by
  refine lookUp_eq_ok ?_
  simp [hc]

theorem lastPlace_eq_ok (pos : 0 < k) : lastPlace k = .ok (k - 1) := by
  cases k with
  | zero => cases pos
  | succ k => rfl

/-- The eigenvectors at the first places, as columns. -/
theorem found_eq_ok {eigen : Eigen Double d} (hk : k ≤ d) (room : d * k ≤ traceLimit) :
    (Grid.ofFn d k fun i c => do
      (Grid.mk d d (.ofColumns eigen.vectors)).entry i
        (← lookUp ((decreasingPlaces eigen.values).toList.map Fin.val) c)) =
      .ok ⟨d, k, .ofColumns (Vector.ofFn fun c : Fin k =>
        eigen.vectors[(decreasingPlaces eigen.values)[c.val]])⟩ := by
  refine Grid.ofFn_eq_ok room fun i c => ?_
  rw [lookUp_order (Nat.lt_of_lt_of_le c.isLt hk), ok_bind, Grid.entry_mk, DenseMatrix.ofColumns,
    DenseMatrix.ofColumns, DenseMatrix.get_ofFn, DenseMatrix.get_ofFn]
  simp

/-- The directions are the principal ones, or missing where those are. -/
theorem directions_eq {C : DenseMatrix Double n d} (room : Room n d k) :
    directions solvers ⟨n, d, C⟩ k = do
      let eigen ← solved (solvers.eigen (covariance C))
      let projection ← (principalDirections eigen k).mapError .error
      return ⟨d, k, projection⟩ := by
  have hd : 0 < d := Nat.lt_of_lt_of_le room.bits room.dimensions
  have htransposed : d * n ≤ traceLimit := Nat.mul_comm n d ▸ room.components
  have hplaces : d ≤ traceLimit := (Nat.le_mul_of_pos_right d hd).trans room.covariance
  have hcount : 0 < max (n - 1) 1 := Nat.lt_of_lt_of_le Nat.one_pos (Nat.le_max_right _ _)
  have hcovariance : (C.transpose * C).map (· / OfCount.ofCount (max (n - 1) 1)) =
      covariance C := rfl
  have hbits : d * k ≤ traceLimit := room.mul_bits_le (.inr (Nat.le_refl d))
  have hlast : k - 1 < d := Nat.lt_of_lt_of_le (Nat.sub_one_lt_of_lt room.bits) room.dimensions
  rw [directions, Grid.transpose_mk C htransposed, ok_bind, Grid.mul_mk,
    Grid.store_eq_ok room.covariance, ok_bind, Grid.divideBy_mk _ hcount room.covariance, ok_bind,
    hcovariance, Grid.eigen_mk _ _ hd room.covariance]
  cases solvers.eigen (covariance C) with
  | none => rfl
  | some eigen =>
    have hcolumn : ∀ c : Fin k, (DenseMatrix.ofColumns (Vector.ofFn fun c : Fin k =>
        eigen.vectors[(decreasingPlaces eigen.values)[c.val]])).column c =
          eigen.vectors[(decreasingPlaces eigen.values)[c.val]] := fun c => by
      simp [Vector.get_eq_getElem]
    have hget : ∀ i : Fin d, eigen.values.get i = eigen.values[i] := fun _ => rfl
    simp only [solved_some, Except.map, ok_bind, order_eq_ok hplaces, lookUp_order hd,
      lastPlace_eq_ok room.bits, lookUp_order hlast, entry_column, hget,
      found_eq_ok room.dimensions hbits, Grid.store_eq_ok hbits, hcolumn]
    rw [principalDirections, dif_pos ⟨room.bits, room.dimensions⟩]
    by_cases hrank : (0 : Double) < eigen.values[(decreasingPlaces eigen.values)[0]] ∧
        ¬eigen.values[(decreasingPlaces eigen.values)[k - 1]] ≤
          eigen.values[(decreasingPlaces eigen.values)[0]] * rankTolerance
    · simp only [if_pos hrank]
      rfl
    · simp only [if_neg hrank]
      rfl

/-- Where there is no room for the covariance there are no directions. -/
theorem directions_eq_trap {C : DenseMatrix Double n d} (components : n * d ≤ traceLimit)
    (full : traceLimit < d * d) :
    directions solvers ⟨n, d, C⟩ k = .error (.trap .capacity) := by
  have htransposed : d * n ≤ traceLimit := Nat.mul_comm n d ▸ components
  rw [directions, Grid.transpose_mk C htransposed, ok_bind, Grid.mul_mk, Grid.store_eq_error full]
  rfl

/-- As many numbers are drawn as are asked for. -/
theorem length_drawNormals (count : Nat) (g : Random.Generator) :
    (Random.drawNormals count g).length = count := by
  induction count generalizing g with
  | zero => rfl
  | succ count ih => rw [Random.drawNormals, List.length_cons, ih]

/-- The matrix that is drawn is decomposed. -/
theorem startRotation_eq (seed : Nat) (pos : 0 < k) (room : k * k ≤ traceLimit) :
    startRotation solvers k seed =
      (solved (solvers.svd (normalMatrix k seed))).map fun s => ⟨k, k, s.left⟩ := by
  rw [startRotation, normalMatrix]
  generalize hdraws : Random.drawNormals (k * k) (Random.Generator.ofSeed (UInt64.ofNat seed)) = draws
  have hlength : draws.length = k * k := hdraws ▸ length_drawNormals _ _
  have hentries : (Grid.ofFn k k fun i j => lookUp draws (j * k + i)) =
      .ok ⟨k, k, .ofFn fun i j => draws.toArray.getD (j.val * k + i.val) 0⟩ := by
    refine Grid.ofFn_eq_ok room fun i j => ?_
    have hplace : j.val * k + i.val < draws.length := by
      rw [hlength]
      calc j.val * k + i.val < j.val * k + k := Nat.add_lt_add_left i.isLt _
        _ = (j.val + 1) * k := (Nat.succ_mul ..).symm
        _ ≤ k * k := Nat.mul_le_mul_right k j.isLt
    rw [DenseMatrix.get_ofFn]
    refine lookUp_eq_ok ?_
    simp [hplace]
  simp only [hentries, ok_bind, Grid.factors_mk _ _ pos room]
  cases solvers.svd _ <;> rfl

/-- A turn asks the solver for one decomposition, of a square matrix. -/
theorem refineOnce_eq {rotation : DenseMatrix Double k k} (room : Room n d k) :
    refineOnce solvers ⟨n, k, projected⟩ ⟨k, k, rotation⟩ =
      (solved (solvers.svd (projected.transpose * (projected * rotation).map binarize))).map fun s =>
        (⟨k, k, s.left * s.right⟩,
          (projected * (s.left * s.right) - (projected * rotation).map binarize).norm) := by
  have hprojected : n * k ≤ traceLimit := room.mul_bits_le (.inl (Nat.le_refl n))
  have htransposed : k * n ≤ traceLimit := Nat.mul_comm n k ▸ hprojected
  have hsquare : k * k ≤ traceLimit := room.mul_bits_le (.inl room.descriptors)
  simp only [refineOnce, Grid.mul_mk, Grid.map, Grid.store_eq_ok hprojected,
    Grid.store_eq_ok hsquare, Grid.transpose_mk projected htransposed, ok_bind,
    Grid.factors_mk _ _ room.bits hsquare]
  cases solvers.svd _ with
  | none => rfl
  | some s =>
    simp only [solved_some, Except.map, ok_bind, Grid.mul_mk, Grid.sub_mk, Grid.store_eq_ok hprojected,
      Grid.store_eq_ok hsquare]
    rfl

theorem refine_eq {rotation : DenseMatrix Double k k} (room : Room n d k) (tolerance : Double)
    (count : Nat) (previous : Option Double) :
    refine solvers tolerance ⟨n, k, projected⟩ count previous ⟨k, k, rotation⟩ =
      (solved (turns solvers tolerance projected count previous rotation)).map fun r =>
        (⟨k, k, r.1⟩, r.2) := by
  -- the rotation is square after each turn, so no later turn can meet another shape
  induction count generalizing previous rotation with
  | zero => rfl
  | succ count ih =>
    rw [refine, turns, refineOnce_eq room]
    cases solvers.svd (projected.transpose * (projected * rotation).map binarize) with
    | none => rfl
    | some s =>
      simp only [solved_some, Except.map, ok_bind, Option.bind_eq_bind, Option.bind_some]
      split
      · rfl
      · rw [ih]
        cases turns solvers tolerance projected count _ _ <;> rfl

/-- Solvers that always have a result turn as `SignHash.refine` does. -/
theorem turns_total {rotation : DenseMatrix Double k k} (tolerance : Double) (count : Nat)
    (previous : Option Double) :
    turns .total tolerance projected count previous rotation =
      some (SignHash.refine singularValues tolerance projected count previous rotation) := by
  induction count generalizing previous rotation with
  | zero => rfl
  | succ count ih =>
    rw [turns, SignHash.refine, SignHash.refineOnce, nearestRotation]
    show (if _ then _ else turns .total tolerance projected count _ _ >>= _) = _
    rw [ih]
    simp only [Option.bind_eq_bind, Option.bind_some, Option.pure_def]
    split <;> rfl

end Checked

end SignHash
