import SignHash.Proofs.Corpus
import SignHash.Proofs.Signs

/-!
# Preparation

A fit prepares the descriptors of its corpus all at once, as the rows of a matrix whose entries are
listed one after the other; an encoder prepares one descriptor, component by component. Both do the same
to a descriptor, down to the patterns of the numbers, so what a model was fitted to is what its encoder
sees; and a model that is written and read is the same model.
-/

namespace SignHash

/-! ## One descriptor -/

/-- The sum of the squares of components, from left to right. -/
def squareSum (x : List Double) : Double :=
  match x.map fun a => a * a with
  | [] => 0
  | first :: rest => rest.foldl (· + ·) first

/-- Components scaled to length one, or as they are if their length is not positive. -/
def scaledToOne (x : List Double) : List Double :=
  if 0 < sqrt (squareSum x) then x.map (· / sqrt (squareSum x)) else x

/-- Components, scaled if that is asked for. -/
def scaledIf (normalize : Bool) (x : List Double) : List Double :=
  if normalize then scaledToOne x else x

theorem squareSum_toList {n : Nat} (x : Vector Double n) :
    squareSum x.toList = sumTerms n fun i => x.get i * x.get i := by
  rw [squareSum, toList_eq_ofFn, List.map_ofFn]
  cases n with
  | zero => rfl
  | succ n =>
    rw [List.ofFn_succ, sumTerms_eq_foldl]
    rfl

theorem toList_unitLength {n : Nat} (x : Vector Double n) :
    (unitLength x).toList = scaledToOne x.toList := by
  rw [unitLength, scaledToOne, squareSum_toList]
  split
  · exact Vector.toList_map
  · rfl

theorem toList_scaled (normalize : Bool) {n : Nat} (x : Vector Double n) :
    (if normalize then unitLength x else x).toList = scaledIf normalize x.toList := by
  cases normalize with
  | true => exact toList_unitLength x
  | false => rfl

/-- An encoder goes through the components and the mean side by side. -/
theorem Model.toList_prepare (m : Model Double) (x : Vector Double m.dimension) :
    (m.prepare x).toList =
      List.zipWith (· - ·) (scaledIf m.normalize x.toList) m.mean.toList := by
  rw [← toList_scaled, Model.prepare]
  exact Vector.toList_zipWith

/-! ## All descriptors -/

/-- The components of all descriptors of a corpus one after the other, scaled if that is asked for. -/
def Corpus.scaledComponents (c : Corpus) (normalize : Bool) : List Double :=
  c.vectors.flatMap fun v => scaledIf normalize v.components

theorem DenseMatrix.getD_toList {m n : Nat} (A : DenseMatrix Double m n) (i : Fin m) (j : Fin n) :
    A.toList.getD (i.val * n + j.val) 0 = A.get i j := by
  rw [List.getD_eq_getElem?_getD, A.getElem?_toList, Option.getD_some]

theorem toList_scaleRows (c : Corpus) (normalize : Bool) :
    (scaleRows normalize c.matrix).toList = c.scaledComponents normalize := by
  have hrows : (scaleRows normalize c.matrix).rows.toList =
      c.matrix.rows.toList.map fun x => if normalize then unitLength x else x := by
    cases normalize with
    | true => exact Vector.toList_map
    | false => simp [scaleRows]
  calc (scaleRows normalize c.matrix).toList
      = c.matrix.rows.toList.flatMap fun x => scaledIf normalize x.toList := by
        rw [DenseMatrix.toList, hrows, List.flatMap_map]
        simp only [toList_scaled]
    _ = (c.vectors.map (·.components)).flatMap (scaledIf normalize) := by
        rw [c.map_components, List.flatMap_map]
    _ = c.scaledComponents normalize := List.flatMap_map ..

/-- Each entry of the rows that are fitted is a component less the mean of its column, where the
columns are found in the list of all components. -/
theorem get_centredRows (c : Corpus) (p : FitParams) (i : Fin c.size) (j : Fin c.dimension) :
    let entry (i : Fin c.size) :=
      (c.scaledComponents p.normalize).getD (i.val * c.dimension + j.val) 0
    (centredRows c p).get i j = entry i - sumTerms c.size entry / OfCount.ofCount c.size := by
  simp only [← toList_scaleRows, DenseMatrix.getD_toList]
  rw [centredRows, subtractFromRows, DenseMatrix.get_ofFn, columnMeans]
  simp [Vector.get_eq_getElem, fittedRows]

/-! ## Both -/

/-- A row that is fitted is what the model makes of the descriptor. -/
theorem Model.prepare_vector (c : Corpus) (p : FitParams)
    (projection : DenseMatrix Double c.dimension p.bitLength)
    (rotation : DenseMatrix Double p.bitLength p.bitLength) (i : Fin c.size) :
    (Model.mk c.dimension p.bitLength (columnMeans (fittedRows c p)) projection rotation
      p.normalize).prepare (c.vector i) = (centredRows c p).rows.get i := by
  have hvector : c.matrix.rows.get i = c.vector i := by simp [Corpus.matrix, Vector.get_eq_getElem]
  rw [← hvector]
  exact Vector.ext fun j hj => (get_subtractFromRows (Model.mk c.dimension p.bitLength
    (columnMeans (fittedRows c p)) projection rotation p.normalize) c.matrix i ⟨j, hj⟩).symm

/-- A model that was fitted is the same after it is written and read, if the components of its corpus
can be counted in a word. -/
theorem eq_of_reread {c : Corpus} {p : FitParams} {drawn : Nat} {f : Fit} {m : Model Double}
    (fitted : fit c p drawn = .ok f) (counted : c.size * c.dimension < 256 ^ 8)
    (h : Model.ofBytes f.model.toBytes = .ok m) : m = f.model := by
  obtain ⟨hdimension, hbits, hpos, hle⟩ := shape_of_fit fitted
  have henough : p.bitLength ≤ c.size := bitLength_le_size_of_fit fitted
  have hfits : f.model.Fits := by
    rw [Model.Fits, hdimension, hbits, Nat.mul_comm]
    exact Nat.lt_of_le_of_lt (Nat.mul_le_mul_right c.dimension henough) counted
  exact Model.eq_of_ofBytes_toBytes hfits (hbits ▸ hpos) (hbits ▸ hdimension ▸ hle) h

/-- A fit and the encoder of its model prepare alike. The rows in which a fit looks for directions are
the components, scaled if that is asked for, less the means of their columns; and what the encoder of
the model compares with its hyperplanes is, for a descriptor of the corpus, its row. This holds too
after the model is written and read, if the components can be counted in a word, as those of every
corpus in memory can. -/
theorem fit_and_encoder_prepare_alike {ds : List Descriptor} {c : Corpus} {p : FitParams}
    {drawn : Nat} {f : Fit} (made : Corpus.ofList ds = .ok c) (fitted : fit c p drawn = .ok f) :
    (∃ projection,
      principalDirections (symmetricEigen (covariance (centredRows c p))) p.bitLength =
          .ok projection ∧
        f.model = ⟨c.dimension, p.bitLength, columnMeans (fittedRows c p), projection,
          (refinedRotation c p (p.seed.getD drawn) projection).1, p.normalize⟩) ∧
    (∀ i j,
      let entry (i : Fin c.size) :=
        (c.scaledComponents p.normalize).getD (i.val * c.dimension + j.val) 0
      (centredRows c p).get i j = entry i - sumTerms c.size entry / OfCount.ofCount c.size) ∧
    ∀ m, m = f.model ∨
      c.size * c.dimension < 256 ^ 8 ∧ Model.ofBytes f.model.toBytes = .ok m → ∀ i : Fin c.size,
      ∃ x : Vector Double m.dimension, x.toList = (c.vectors.get i).components ∧
        (m.prepare x).toList =
          List.zipWith (· - ·) (scaledIf m.normalize x.toList) m.mean.toList ∧
        (m.prepare x).toList = ((centredRows c p).rows.get i).toList ∧
        (Encoder.ofModel m).encodeComponents x.toList =
          .ok (Code.ofBits (Model.bitsAgainst m.hyperplanes (m.prepare x).toList)) := by
  obtain ⟨-, -, -, projection, hprojection, hf⟩ := fit_eq_ok_iff.mp fitted
  have hmodel := congrArg Fit.model hf
  refine ⟨⟨projection, hprojection, hmodel⟩, get_centredRows c p, fun m hm i => ?_⟩
  obtain rfl : m = f.model := by
    rcases hm with rfl | ⟨counted, hread⟩
    · rfl
    · exact eq_of_reread fitted counted hread
  have hfinite : ∀ a ∈ (c.vectors.get i).components, a.isFinite = true :=
    List.all_eq_true.mp (Corpus.isFinite_of_ofList made _ (List.get_mem c.vectors i))
  rw [hmodel]
  refine ⟨c.vector i, rfl, Model.toList_prepare _ _, ?_, Encoder.encodeComponents_toList hfinite⟩
  rw [Model.prepare_vector]

/-- Of two opposite descriptors, scaled, the first is prepared as the number one, by the fit and by the
encoder of the model as it was read. -/
theorem fit_and_encoder_prepare_alike_of_opposite :
    let ds : List Descriptor := [⟨"b", [⟨0xc014000000000000⟩]⟩, ⟨"a", [⟨0x4008000000000000⟩]⟩]
    let c : Corpus := ⟨[⟨"a", [⟨0x4008000000000000⟩]⟩, ⟨"b", [⟨0xc014000000000000⟩]⟩], 1, by decide⟩
    let p : FitParams := ⟨1, 5, some 7, true, 0⟩
    ∃ f m, Corpus.ofList ds = .ok c ∧ fit c p 0 = .ok f ∧ Model.ofBytes f.model.toBytes = .ok m ∧
      ∃ x : Vector Double m.dimension, x.toList = [⟨0x4008000000000000⟩] ∧
        (m.prepare x).toList = [1] := by
  intro ds c p
  have hperm : c.vectors.Perm (Corpus.sorted ds) :=
    (List.Perm.swap ..).trans (List.mergeSort_perm _ _).symm
  have hsorted : c.vectors = Corpus.sorted ds :=
    Corpus.eq_of_pairwise_order hperm (by decide) (Corpus.pairwise_sorted ds)
  have hmade : Corpus.ofList ds = .ok c :=
    Corpus.ofList_eq_ok_iff.mpr ⟨⟨1, by decide⟩, hsorted, rfl⟩
  have hsound : (fit c p 0).toOption.map (·.model.issue?.isNone) = some true := by decide +kernel
  obtain ⟨f, hf, hissue⟩ : ∃ f, fit c p 0 = .ok f ∧ f.model.issue? = none := by
    cases hfit : fit c p 0 with
    | error stop =>
      rw [hfit] at hsound
      cases hsound
    | ok f =>
      rw [hfit] at hsound
      exact ⟨f, rfl, Option.isNone_iff_eq_none.mp (Option.some.inj hsound)⟩
  obtain ⟨hdimension, hbits, -⟩ := shape_of_fit hf
  have hread : Model.ofBytes f.model.toBytes = .ok f.model :=
    Model.ofBytes_toBytes hissue (by rw [Model.Fits, hdimension, hbits]; decide)
  obtain ⟨-, -, hboth⟩ := fit_and_encoder_prepare_alike hmade hf
  obtain ⟨x, hx, -, hprepared, -⟩ := hboth f.model (.inr ⟨by decide, hread⟩) ⟨0, by decide⟩
  have hrow : ((centredRows c p).rows.get ⟨0, by decide⟩).toList = [1] := by decide +kernel
  exact ⟨f, f.model, hmade, hf, hread, x, hx, hprepared.trans hrow⟩

end SignHash
