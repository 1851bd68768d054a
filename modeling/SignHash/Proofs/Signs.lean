import Mathlib.Algebra.Order.Field.Rat
import SignHash.Proofs.Code
import SignHash.Proofs.Encoder
import SignHash.Proofs.MatrixAlgebra
import SignHash.Proofs.Rotation

/-!
# Codes as signs

The projection and the rotation are multiplied with each other once, and each bit of a code is then
one sum of products. The refinement of the rotation multiplies the descriptors with the projection,
then with the rotation, and takes the signs. In exact arithmetic products associate, so both come to
the same: the codes of the descriptors that a model was fitted to are the signs that the last rotation
gives them.
-/

namespace SignHash

universe u

/-! ## Sums of products -/

theorem sumTerms_eq_foldl {α : Type u} [Add α] [Zero α] {n : Nat} (term : Fin (n + 1) → α) :
    sumTerms (n + 1) term =
      (List.ofFn fun i : Fin n => term i.succ).foldl (· + ·) (term 0) := by
  rw [sumTerms, Fin.foldl_eq_foldl_finRange, List.ofFn_eq_map, List.foldl_map]

theorem toList_eq_ofFn {α : Type u} {n : Nat} (x : Vector α n) : x.toList = List.ofFn x.get := by
  apply List.ext_getElem
  · simp
  · intro i hi hi'
    simp [Vector.get_eq_getElem]

theorem zipWith_toList {α : Type u} [Mul α] {n : Nat} (x y : Vector α n) :
    List.zipWith (· * ·) x.toList y.toList = List.ofFn fun i => x.get i * y.get i := by
  apply List.ext_getElem
  · simp
  · intro i hi hi'
    simp [Vector.get_eq_getElem]

/-- The sum of products of two vectors adds the terms as a product of matrices does. -/
theorem dotProduct?_toList {α : Type u} [Add α] [Mul α] [Zero α] {n : Nat} (x y : Vector α n) :
    dotProduct? x.toList y.toList = some (sumTerms n fun i => x.get i * y.get i) := by
  rw [dotProduct?, if_pos (by simp), zipWith_toList]
  cases n with
  | zero => rfl
  | succ n => rw [List.ofFn_succ, sumTerms_eq_foldl]

theorem binarize_eq_one_iff {K : Type u} [Field K] [LinearOrder K] [IsStrictOrderedRing K] {x : K} :
    binarize x = 1 ↔ 0 ≤ x := by
  rw [binarize]
  by_cases hx : 0 ≤ x
  · exact iff_of_true (if_pos hx) hx
  · rw [if_neg hx]
    refine iff_of_false (fun h => ?_) hx
    have hneg : (-1 : K) < 0 := neg_one_lt_zero
    exact absurd (h ▸ hneg) (not_lt.mpr zero_le_one)

/-- The rows of a matrix as a fit projects them: scaled if that is asked for, their mean subtracted. -/
def centre {α : Type u} [Add α] [Sub α] [Mul α] [Div α] [Zero α] [SquareRoot α] [OfCount α] [LT α]
    [DecidableLT α] {n d : Nat} (normalize : Bool) (A : DenseMatrix α n d) : DenseMatrix α n d :=
  subtractFromRows (columnMeans (scaleRows normalize A)) (scaleRows normalize A)

namespace Model

section

variable {α : Type u} [Add α] [Sub α] [Mul α] [Div α] [Zero α] [SquareRoot α] [LT α] [DecidableLT α]
  {n : Nat} (m : Model α)

/-- The rows of a matrix as the refinement has them: the mean subtracted, projected, then rotated. -/
def rotated (A : DenseMatrix α n m.dimension) : DenseMatrix α n m.bitLength :=
  subtractFromRows m.mean (scaleRows m.normalize A) * m.projection * m.rotation

theorem get_prepare (x : Vector α m.dimension) (j : Fin m.dimension) : (m.prepare x).get j =
    (if m.normalize then unitLength x else x).get j - m.mean.get j := by
  simp [prepare, Vector.get_eq_getElem]

/-- A single vector is prepared as the rows of a corpus are. -/
theorem get_subtractFromRows (A : DenseMatrix α n m.dimension) (i : Fin n) (j : Fin m.dimension) :
    (subtractFromRows m.mean (scaleRows m.normalize A)).get i j = (m.prepare (A.rows.get i)).get j := by
  rw [subtractFromRows, DenseMatrix.get_ofFn, get_prepare, scaleRows]
  by_cases hnormalize : m.normalize = true
  · simp [hnormalize, DenseMatrix.get, Vector.get_eq_getElem]
  · simp [hnormalize, DenseMatrix.get, Vector.get_eq_getElem]

variable [LE α] [DecidableLE α]

/-- The code of a vector. -/
def code (x : Vector α m.dimension) : Code := Code.ofBits (m.bits x)

/-- Each bit is the sign of a sum of products along a column of the combined matrix. -/
theorem bits_eq_ofFn (x : Vector α m.dimension) :
    m.bits x = List.ofFn fun c => decide (0 ≤ sumTerms m.dimension fun j =>
      (m.projection * m.rotation).get j c * (m.prepare x).get j) := by
  rw [bits, bitsAgainst, hyperplanes, List.map_map, List.ofFn_eq_map]
  refine List.map_congr_left fun c _ => ?_
  show decide (0 ≤ (dotProduct? _ _).getD 0) = _
  rw [dotProduct?_toList, Option.getD_some]
  simp only [DenseMatrix.get_column]

/-! ## Fitted models -/

/-- The model that a fit makes of rows, with given directions and from a given first rotation. That it
has their dimension is seen by unfolding it. -/
abbrev ofRows [OfCount α] [Neg α] [One α] {d k : Nat} (svd : DenseMatrix α k k → Svd α k)
    (tolerance : α) (turns : Nat) (normalize : Bool) (A : DenseMatrix α n d)
    (projection : DenseMatrix α d k) (start : DenseMatrix α k k) : Model α :=
  ⟨d, k, columnMeans (scaleRows normalize A), projection,
    (refine svd tolerance (centre normalize A * projection) turns none start).1, normalize⟩

end

theorem ofRows_of_fit {c : Corpus} {p : FitParams} {drawn : Nat} {f : Fit}
    (h : fit c p drawn = .ok f) : ∃ projection,
      principalDirections (symmetricEigen (covariance (centre p.normalize c.matrix))) p.bitLength =
        .ok projection ∧
      f.model = ofRows singularValues p.tolerance p.maxIterations p.normalize c.matrix projection
        (randomRotation p.bitLength f.seed) := by
  obtain ⟨-, -, -, projection, hprojection, rfl⟩ := fit_eq_ok_iff.mp h
  exact ⟨projection, hprojection, rfl⟩

/-! ## Exact arithmetic -/

section

variable {K : Type u} [Field K] [LinearOrder K] [SquareRoot K] {n : Nat} (m : Model K)

/-- It does not matter which two matrices are multiplied first. -/
theorem get_rotated (A : DenseMatrix K n m.dimension) (i : Fin n) (c : Fin m.bitLength) :
    (m.rotated A).get i c = sumTerms m.dimension fun j =>
      (m.projection * m.rotation).get j c * (m.prepare (A.rows.get i)).get j := by
  rw [rotated, DenseMatrix.mul_assoc, DenseMatrix.get_mul]
  refine congrArg (sumTerms m.dimension) (funext fun j => ?_)
  rw [get_subtractFromRows, mul_comm]

theorem bits_row (A : DenseMatrix K n m.dimension) (i : Fin n) :
    m.bits (A.rows.get i) = List.ofFn fun c => decide (0 ≤ (m.rotated A).get i c) := by
  rw [bits_eq_ofFn]
  simp only [get_rotated]

/-- The entries that the refinement takes the signs of, as sums. -/
theorem get_rotated_eq_sum (x : Vector K m.dimension) (c : Fin m.bitLength) :
    (m.rotated ⟨#v[x]⟩).get 0 c = ∑ l, (∑ j,
      ((if m.normalize then unitLength x else x).get j - m.mean.get j) * m.projection.get j l) *
        m.rotation.get l c := by
  simp only [rotated, DenseMatrix.get_mul, sumTerms_eq_sum, get_subtractFromRows, get_prepare]
  rfl

theorem bit_code (x : Vector K m.dimension) (c : Fin m.bitLength) :
    (m.code x).bit c = .ok (some (decide (0 ≤ (m.rotated ⟨#v[x]⟩).get 0 c))) := by
  have hbits := m.bits_row ⟨#v[x]⟩ 0
  rw [code, Code.bit_ofBits, show m.bits x = _ from hbits, List.getElem?_ofFn, dif_pos c.isLt]

variable [IsStrictOrderedRing K]

/-- The codes of the rows of a matrix are the signs of the rows that the refinement has. -/
theorem map_code_rows (A : DenseMatrix K n m.dimension) :
    A.rows.toList.map m.code = ((m.rotated A).map binarize).rows.toList.map fun row =>
      Code.ofBits (row.toList.map fun sign => decide (sign = 1)) := by
  -- row by row, then bit by bit
  rw [toList_eq_ofFn, toList_eq_ofFn, List.map_ofFn, List.map_ofFn]
  refine congrArg List.ofFn (funext fun i => ?_)
  show Code.ofBits (m.bits (A.rows.get i)) = Code.ofBits _
  rw [bits_row, toList_eq_ofFn, List.map_ofFn]
  refine congrArg (fun bits => Code.ofBits (List.ofFn bits)) (funext fun c => ?_)
  show _ = decide (((m.rotated A).map binarize).get i c = 1)
  rw [DenseMatrix.get_map, decide_eq_decide, binarize_eq_one_iff]

end

end Model

/-! ## Encoders -/

theorem Encoder.encodeComponents_toList {m : Model Double} {x : Vector Double m.dimension}
    (finite : ∀ v ∈ x.toList, v.isFinite = true) :
    (ofModel m).encodeComponents x.toList = .ok (m.code x) := by
  have hlength : x.toList.length = (ofModel m).model.dimension := Vector.length_toList
  rw [encodeComponents, dif_pos hlength, if_pos (List.all_eq_true.mpr finite)]
  rfl

/-- Descriptors are encoded one by one, in their order. -/
theorem Encoder.encodeAll_toList {m : Model Double} {ds : List Descriptor}
    {xs : List (Vector Double m.dimension)} (components : ds.map (·.components) = xs.map (·.toList))
    (finite : ∀ d ∈ ds, d.isFinite = true) :
    (ofModel m).encodeAll ds = .ok (xs.map m.code) := by
  induction ds generalizing xs with
  | nil =>
    obtain rfl : xs = [] := List.map_eq_nil_iff.mp components.symm
    rfl
  | cons d ds ih =>
    obtain ⟨x, rest, rfl, hx, hrest⟩ := List.map_eq_cons_iff.mp components.symm
    obtain ⟨hd, hds⟩ := List.forall_mem_cons.mp finite
    have hcomponents : d.components = x.toList := hx.symm
    have hencode : (ofModel m).encode d = .ok (m.code x) := by
      rw [encode, hcomponents, encodeComponents_toList]
      rw [← hcomponents]
      exact List.all_eq_true.mp hd
    have hall : ds.mapM (ofModel m).encode = .ok (rest.map m.code) := ih hrest.symm hds
    rw [encodeAll, List.mapM_cons, hencode, hall]
    rfl

theorem Corpus.map_components (c : Corpus) :
    c.vectors.map (·.components) = c.matrix.rows.toList.map (·.toList) := by
  have hrows : c.matrix.rows.toList = List.ofFn c.vector := by rw [Corpus.matrix, Vector.toList_ofFn]
  calc c.vectors.map (·.components)
      = (List.ofFn c.vectors.get).map (·.components) := by rw [List.ofFn_get]
    _ = List.ofFn fun i => (c.vector i).toList := List.map_ofFn
    _ = c.matrix.rows.toList.map (·.toList) := by rw [hrows, List.map_ofFn]; rfl

/-! ## What holds of codes -/

/-- A model whose matrices are combined once encodes as it is defined. In exact arithmetic each bit of
a vector is set exactly if the entry of the vector, prepared, projected and then rotated, is not
negative, which is where the refinement has the sign one; so the codes of the rows that a model is
fitted to are the signs of the rows under the last rotation. Encoding and fitting are these functions
over binary64 numbers. -/
theorem codes_are_signs {K : Type u} [Field K] [LinearOrder K] [IsStrictOrderedRing K] [SquareRoot K]
    [OfCount K] :
    (∀ (m : Model K) (x : Vector K m.dimension), (m.code x).length = m.bitLength ∧
      ∀ c : Fin m.bitLength,
        let entry := ∑ l, (∑ j,
          ((if m.normalize then unitLength x else x).get j - m.mean.get j) * m.projection.get j l) *
            m.rotation.get l c
        (m.rotated ⟨#v[x]⟩).get 0 c = entry ∧
          (m.code x).bit c = .ok (some (decide (0 ≤ entry))) ∧ (0 ≤ entry ↔ binarize entry = 1)) ∧
    (∀ {n d k : Nat} (svd : DenseMatrix K k k → Svd K k) (tolerance : K) (turns : Nat)
      (normalize : Bool) (A : DenseMatrix K n d) (projection : DenseMatrix K d k)
      (start : DenseMatrix K k k),
      let m := Model.ofRows svd tolerance turns normalize A projection start
      let projected := centre normalize A * projection
      let rotation := (refine svd tolerance projected turns none start).1
      A.rows.toList.map m.code = ((projected * rotation).map binarize).rows.toList.map fun row =>
        Code.ofBits (row.toList.map fun sign => decide (sign = 1))) ∧
    (∀ (m : Model Double) (x : Vector Double m.dimension), (∀ v ∈ x.toList, v.isFinite = true) →
      (Encoder.ofModel m).encodeComponents x.toList = .ok (m.code x)) ∧
    ∀ (c : Corpus) (p : FitParams) (drawn : Nat) (f : Fit), fit c p drawn = .ok f → ∃ projection,
      let m := Model.ofRows singularValues p.tolerance p.maxIterations p.normalize c.matrix
        projection (randomRotation p.bitLength f.seed)
      f.model = m ∧ ((∀ v ∈ c.vectors, v.isFinite = true) →
        (Encoder.ofModel f.model).encodeAll c.vectors = .ok (c.matrix.rows.toList.map m.code)) := by
  refine ⟨fun m x => ⟨?_, fun c => ?_⟩, ?_, ?_, ?_⟩
  · rw [Model.code, Code.length_ofBits, Model.bits_eq_ofFn, List.length_ofFn]
  · intro entry
    have hentry : (m.rotated ⟨#v[x]⟩).get 0 c = entry := m.get_rotated_eq_sum x c
    exact ⟨hentry, hentry ▸ m.bit_code x c, binarize_eq_one_iff.symm⟩
  · intro n d k svd tolerance turns normalize A projection start m projected rotation
    exact m.map_code_rows A
  · intro m x finite
    exact Encoder.encodeComponents_toList finite
  · intro c p drawn f hfit
    obtain ⟨projection, -, hmodel⟩ := Model.ofRows_of_fit hfit
    refine ⟨projection, hmodel, fun finite => ?_⟩
    rw [hmodel]
    exact Encoder.encodeAll_toList c.map_components finite

/-- The number for a count is the count itself. -/
instance : OfCount ℚ := ⟨fun n => n⟩

/-- The first of these vectors lies on a hyperplane once it is scaled, the second is encoded with
binary64 numbers, and the others are fitted to: rational numbers by turns of the refinement, binary64
numbers by a fit. -/
theorem codes_are_signs_of_opposite_rows :
    let m : Model ℚ := ⟨3, 2, #v[-26 / 7, 3 / 7, 27 / 7], ⟨#v[#v[1, 0], #v[2, 1], #v[0, 1]]⟩,
      ⟨#v[#v[3 / 5, -4 / 5], #v[4 / 5, 3 / 5]]⟩, true⟩
    let smallest : Model Double := ⟨1, 1, #v[0], ⟨#v[#v[1]]⟩, ⟨#v[#v[1]]⟩, false⟩
    let fitted := Model.ofRows firstRowSvd 0 5 false oppositeRows (DenseMatrix.identity 4)
      (DenseMatrix.identity 4)
    let c : Corpus := ⟨[⟨"a", [1]⟩, ⟨"b", [-1]⟩], 1, by decide⟩
    (m.code #v[2, 3, 6]).bit 0 = .ok (some true) ∧ (m.code #v[2, 3, 6]).bit 1 = .ok (some false) ∧
      oppositeRows.rows.toList.map fitted.code =
        [Code.ofBits [true, true, true, true], Code.ofBits [false, true, true, true]] ∧
      (Encoder.ofModel smallest).encodeComponents [Double.half] = .ok (Code.ofBits [true]) ∧
      ∃ f codes, fit c ⟨1, 1, some 7, false, 0⟩ 0 = .ok f ∧
        (Encoder.ofModel f.model).encodeAll c.vectors = .ok codes ∧ codes.length = 2 := by
  intro m smallest fitted c
  -- the part on binary64 numbers is the same for every field
  obtain ⟨hbits, hrows, hencode, hfit⟩ := codes_are_signs (K := ℚ)
  have hbit : ∀ b : Fin 2, (m.code #v[2, 3, 6]).bit b =
      .ok (some (decide (0 ≤ (m.rotated ⟨#v[#v[2, 3, 6]]⟩).get 0 b))) := by
    intro b
    obtain ⟨hentry, hbit, -⟩ := (hbits m #v[2, 3, 6]).2 b
    rw [hentry]
    exact hbit
  refine ⟨(hbit 0).trans (by decide +kernel), (hbit 1).trans (by decide +kernel), ?_, ?_, ?_⟩
  · rw [hrows firstRowSvd 0 5 false oppositeRows (DenseMatrix.identity 4) (DenseMatrix.identity 4)]
    decide +kernel
  · rw [show [Double.half] = (#v[Double.half] : Vector Double 1).toList from rfl,
      hencode smallest #v[Double.half] (by decide)]
    decide +kernel
  · have hsucceeds : (fit c ⟨1, 1, some 7, false, 0⟩ 0).toOption.isSome = true := by decide +kernel
    cases hf : fit c ⟨1, 1, some 7, false, 0⟩ 0 with
    | error stop =>
      rw [hf] at hsucceeds
      cases hsucceeds
    | ok f =>
      obtain ⟨projection, -, hcodes⟩ := hfit c ⟨1, 1, some 7, false, 0⟩ 0 f hf
      refine ⟨f, _, rfl, hcodes (by decide), ?_⟩
      rw [List.length_map, Vector.length_toList]
      rfl

end SignHash
