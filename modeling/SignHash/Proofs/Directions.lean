import SignHash.Fit.Principal
import SignHash.Proofs.Magnitude
import SignHash.Proofs.Matrix

/-!
# Principal directions and the solver

The principal directions depend on the pairs of eigenvalue and eigenvector only, not on their order or
on the signs of the vectors. Eigenvalues that differ have one place each in decreasing order, so that
the places of a solver's pairs are those of another solver's, renamed. A vector and its opposite have
their first largest entry at the same place, so just one of the two is positive there.
-/

namespace SignHash

open Double

variable {d k : Nat}

/-- The same pairs of eigenvalue and eigenvector, in another order and up to the signs of the
vectors. -/
def Eigen.SamePairs (e e' : Eigen Double d) : Prop :=
  ∃ place : Equiv.Perm (Fin d), ∀ i, e'.values.get (place i) = e.values.get i ∧
    (e'.vectors.get (place i) = e.vectors.get i ∨
      e'.vectors.get (place i) = (e.vectors.get i).map (-·))

/-! ## Places in decreasing order -/

/-- Whether an eigenvalue comes before another one, and places decide between equal ones. -/
def comesBefore (values : Vector Double d) (a b : Fin d) : Bool :=
  ((totalOrder (values.get b) (values.get a)).then (compare a b)).isLE

theorem toList_decreasingPlaces (values : Vector Double d) :
    (decreasingPlaces values).toList = (List.finRange d).mergeSort (comesBefore values) := rfl

theorem comesBefore_iff {values : Vector Double d} {a b : Fin d} : comesBefore values a b = true ↔
    totalOrder (values.get b) (values.get a) = .lt ∨ values.get b = values.get a ∧ a ≤ b := by
  rw [comesBefore, Ordering.isLE_then_iff_or, totalOrder_eq_iff]
  have hle : (compare a.val b.val).isLE = true ↔ a.val ≤ b.val := Std.isLE_compare
  exact or_congr_right (and_congr_right fun _ => hle)

theorem perm_decreasingPlaces (values : Vector Double d) :
    (decreasingPlaces values).toList.Perm (List.finRange d) := List.mergeSort_perm _ _

/-- Eigenvalues that differ are in strictly decreasing order. -/
theorem pairwise_decreasingPlaces {values : Vector Double d}
    (distinct : Function.Injective values.get) :
    (decreasingPlaces values).toList.Pairwise fun a b =>
      totalOrder (values.get b) (values.get a) = .lt := by
  have htrans : ∀ a b c : Fin d, comesBefore values a b = true → comesBefore values b c = true →
      comesBefore values a c = true := by
    intro a b c hab hbc
    rw [comesBefore_iff] at *
    rcases hab with hab | ⟨hab, hle⟩
    · rcases hbc with hbc | ⟨hbc, -⟩
      · exact .inl (totalOrder_trans hbc hab)
      · exact .inl (hbc ▸ hab)
    · rcases hbc with hbc | ⟨hbc, hle'⟩
      · exact .inl (hab ▸ hbc)
      · exact .inr ⟨hbc.trans hab, hle.trans hle'⟩
  have htotal : ∀ a b : Fin d, (comesBefore values a b || comesBefore values b a) = true := by
    intro a b
    rw [Bool.or_eq_true, comesBefore_iff, comesBefore_iff]
    cases h : totalOrder (values.get b) (values.get a) with
    | lt => exact .inl (.inl rfl)
    | eq =>
      have hsame := totalOrder_eq_iff.mp h
      rcases le_total a b with hle | hle
      · exact .inl (.inr ⟨hsame, hle⟩)
      · exact .inr (.inr ⟨hsame.symm, hle⟩)
    | gt => exact .inr (.inl (by rw [totalOrder_swap, h]; rfl))
  have hsorted := List.pairwise_mergeSort htrans htotal (List.finRange d)
  have hnodup := (perm_decreasingPlaces values).nodup_iff.mpr (List.nodup_finRange d)
  refine (hsorted.and hnodup).imp fun {a b} hab => ?_
  rcases comesBefore_iff.mp hab.1 with hlt | ⟨hsame, -⟩
  · exact hlt
  · exact absurd (distinct hsame.symm) hab.2

/-- The places of renamed eigenvalues are the places of the eigenvalues, renamed. -/
theorem decreasingPlaces_of_perm {values values' : Vector Double d} (place : Equiv.Perm (Fin d))
    (distinct : Function.Injective values.get)
    (same : ∀ i, values'.get (place i) = values.get i) :
    decreasingPlaces values' = (decreasingPlaces values).map place := by
  have distinct' : Function.Injective values'.get := by
    intro a b hab
    rw [← place.apply_symm_apply a, ← place.apply_symm_apply b, same, same] at hab
    exact place.symm.injective (distinct hab)
  -- two strictly sorted arrangements of the same places
  refine Vector.toList_inj.mp (List.Perm.eq_of_pairwise ?_ (pairwise_decreasingPlaces distinct') ?_ ?_)
  · intro a b _ _ hab hba
    exact absurd (totalOrder_trans hab hba) (by rw [totalOrder_eq_iff.mpr rfl]; nofun)
  · rw [Vector.toList_map]
    exact (pairwise_decreasingPlaces distinct).map place fun a b hab => by rwa [same, same]
  · rw [Vector.toList_map]
    exact (perm_decreasingPlaces values').trans
      (((perm_decreasingPlaces values).map place).trans place.map_finRange_perm).symm

/-- The places are all different, and an eigenvalue that is not at one of the first is less than those
that are. -/
theorem get_decreasingPlaces {values : Vector Double d} (distinct : Function.Injective values.get) :
    Function.Injective (decreasingPlaces values).get ∧
      ∀ c i, (∀ c' ≤ c, (decreasingPlaces values).get c' ≠ i) →
        totalOrder (values.get i) (values.get ((decreasingPlaces values).get c)) = .lt := by
  have hlength : (decreasingPlaces values).toList.length = d := Vector.length_toList
  have hget : ∀ c : Fin d, (decreasingPlaces values).get c =
      (decreasingPlaces values).toList.get (c.cast hlength.symm) :=
    fun c => by simp [Vector.get_eq_getElem]
  have hnodup := (perm_decreasingPlaces values).nodup_iff.mpr (List.nodup_finRange d)
  refine ⟨fun c c' h => ?_, fun c i h => ?_⟩
  · rw [hget, hget] at h
    exact Fin.cast_injective hlength.symm (List.nodup_iff_injective_get.mp hnodup h)
  · have hmem : i ∈ (decreasingPlaces values).toList :=
      (perm_decreasingPlaces values).mem_iff.mpr (List.mem_finRange i)
    obtain ⟨n, hn, rfl⟩ := List.getElem_of_mem hmem
    have hd : n < d := by simpa using hn
    have hlt : c.val < n := by
      refine Nat.lt_of_not_le fun hle => ?_
      exact h ⟨n, hd⟩ hle (hget ⟨n, hd⟩)
    have hpairs := List.pairwise_iff_getElem.mp (pairwise_decreasingPlaces distinct)
    rw [hget]
    exact hpairs c.val n (hlength.symm ▸ c.isLt) hn hlt

/-! ## Signs -/

/-- The number of larger magnitude, the first of two of the same. -/
def larger (best x : Double) : Double := if best.abs < x.abs then x else best

theorem pivot_eq_foldl (x : Vector Double d) : pivot x = x.toList.foldl larger 0 :=
  (Vector.foldl_toList _).symm

/-- The first of the numbers of largest magnitude is found, unless none is larger than the one to start
with. -/
theorem foldl_larger (xs : List Double) {best : Double} (hbest : best.kind ≠ .nan)
    (numbers : ∀ x ∈ xs, x.kind ≠ .nan) :
    (xs.foldl larger best = best ∧ ∀ x ∈ xs, x.magnitude ≤ best.magnitude) ∨
      ∃ before p after, xs = before ++ p :: after ∧ xs.foldl larger best = p ∧
        best.magnitude < p.magnitude ∧ (∀ x ∈ before, x.magnitude < p.magnitude) ∧
        ∀ x ∈ after, x.magnitude ≤ p.magnitude := by
  induction xs generalizing best with
  | nil => exact .inl ⟨rfl, nofun⟩
  | cons x xs ih =>
    rw [List.forall_mem_cons] at numbers
    obtain ⟨hx, numbers⟩ := numbers
    rw [List.foldl_cons, larger]
    by_cases habs : best.abs < x.abs
    · have hlt := (abs_lt_abs_iff hbest hx).mp habs
      rw [if_pos habs]
      rcases ih hx numbers with ⟨hp, hle⟩ | ⟨before, p, after, rfl, hp, hxp, hbefore, hafter⟩
      · exact .inr ⟨[], x, xs, rfl, hp, hlt, nofun, hle⟩
      · exact .inr ⟨x :: before, p, after, rfl, hp, hlt.trans hxp,
          List.forall_mem_cons.mpr ⟨hxp, hbefore⟩, hafter⟩
    · have hle := Nat.le_of_not_lt (mt (abs_lt_abs_iff hbest hx).mpr habs)
      rw [if_neg habs]
      rcases ih hbest numbers with ⟨hp, hall⟩ | ⟨before, p, after, rfl, hp, hxp, hbefore, hafter⟩
      · exact .inl ⟨hp, List.forall_mem_cons.mpr ⟨hle, hall⟩⟩
      · exact .inr ⟨x :: before, p, after, rfl, hp, hxp,
          List.forall_mem_cons.mpr ⟨Nat.lt_of_le_of_lt hle hxp, hbefore⟩, hafter⟩

/-- With all signs changed the sign of what is found changes. -/
theorem rank_foldl_larger_neg (xs : List Double) {best best' : Double} (habs : best'.abs = best.abs)
    (hrank : best'.rank = -best.rank) :
    ((xs.map (-·)).foldl larger best').rank = -(xs.foldl larger best).rank := by
  induction xs generalizing best best' with
  | nil => exact hrank
  | cons x xs ih =>
    rw [List.map_cons, List.foldl_cons, List.foldl_cons, larger, larger, habs, abs_neg]
    by_cases hlt : best.abs < x.abs
    · rw [if_pos hlt, if_pos hlt]
      exact ih (abs_neg x) (rank_neg x)
    · rw [if_neg hlt, if_neg hlt]
      exact ih habs hrank

theorem rank_pivot_neg (x : Vector Double d) : (pivot (x.map (-·))).rank = -(pivot x).rank := by
  rw [pivot_eq_foldl, pivot_eq_foldl, Vector.toList_map]
  exact rank_foldl_larger_neg x.toList rfl rfl

/-- The pivot of a vector that is not zero is the first entry of largest magnitude. -/
theorem exists_pivot {x : Vector Double d} (numbers : ∀ j, (x.get j).kind ≠ .nan)
    (nonzero : ∃ j, (x.get j).isZero = false) :
    ∃ i, pivot x = x.get i ∧ 0 < (x.get i).magnitude ∧
      (∀ j, j < i → (x.get j).magnitude < (x.get i).magnitude) ∧
      ∀ j, (x.get j).magnitude ≤ (x.get i).magnitude := by
  have hget : ∀ j : Fin d, x.toList[j.val]? = some (x.get j) := by
    intro j
    simp [Vector.get_eq_getElem]
  have hnumbers : ∀ a ∈ x.toList, a.kind ≠ .nan := by
    intro a ha
    obtain ⟨j, hj, rfl⟩ := List.getElem_of_mem ha
    exact numbers ⟨j, by simpa using hj⟩
  have hmem : ∀ j, x.get j ∈ x.toList := fun j => List.mem_of_getElem? (hget j)
  rw [pivot_eq_foldl]
  rcases foldl_larger x.toList notBelowZero_zero.not_nan hnumbers with
    ⟨-, hle⟩ | ⟨before, p, after, hx, hp, hpos, hbefore, hafter⟩
  -- zero, which the search starts with, is not found
  · obtain ⟨j, hj⟩ := nonzero
    have hzero := isZero_iff.mpr (Nat.le_zero.mp (hle _ (hmem j)))
    rw [hj] at hzero
    cases hzero
  · have hlt : before.length < d := by
      have hlength := congrArg List.length hx
      simp only [Vector.length_toList, List.length_append, List.length_cons] at hlength
      omega
    have hi : x.get ⟨before.length, hlt⟩ = p := by
      have h := hget ⟨before.length, hlt⟩
      rw [hx] at h
      simpa using h.symm
    rw [hp]
    refine ⟨⟨before.length, hlt⟩, hi.symm, hi ▸ hpos, fun j hj => ?_, fun j => ?_⟩
    · have h := hget j
      rw [hx, List.getElem?_append_left hj] at h
      exact hi ▸ hbefore _ (List.mem_of_getElem? h)
    · have h := hmem j
      rw [hx, List.mem_append, List.mem_cons] at h
      rw [hi]
      rcases h with h | h | h
      · exact Nat.le_of_lt (hbefore _ h)
      · rw [h]
      · exact hafter _ h

theorem get_map_neg (x : Vector Double d) (j : Fin d) : (x.map (-·)).get j = -x.get j := by
  simp [Vector.get_eq_getElem]

theorem map_neg_map_neg (x : Vector Double d) : (x.map (-·)).map (-·) = x := by
  refine Vector.ext fun j hj => ?_
  rw [Vector.getElem_map, Vector.getElem_map, neg_neg]

/-- The pivot of a vector in its form is positive. -/
theorem rank_pivot_positiveForm {x : Vector Double d} (numbers : ∀ j, (x.get j).kind ≠ .nan)
    (nonzero : ∃ j, (x.get j).isZero = false) : 0 < (pivot (positiveForm x)).rank := by
  obtain ⟨i, hi, hpos, -⟩ := exists_pivot numbers nonzero
  have hrank : (pivot x).rank ≠ 0 := by
    rw [hi, rank]
    cases (x.get i).sign <;> simp only [Float.Model.UnpackedFloat.Sign.apply] <;> omega
  have hlt := lt_zero_iff (hi ▸ numbers i : (pivot x).kind ≠ .nan)
  rw [positiveForm]
  split
  · next h =>
    rw [rank_pivot_neg]
    have := hlt.mp h
    omega
  · next h =>
    have := mt hlt.mpr h
    omega

theorem positiveForm_eq_or (x : Vector Double d) :
    positiveForm x = x ∨ positiveForm x = x.map (-·) := by
  rw [positiveForm]
  split
  · exact .inr rfl
  · exact .inl rfl

theorem numbers_map_neg {x : Vector Double d} (numbers : ∀ j, (x.get j).kind ≠ .nan) (j : Fin d) :
    ((x.map (-·)).get j).kind ≠ .nan := by
  rw [get_map_neg]
  exact kind_neg_ne_nan (numbers j)

theorem nonzero_map_neg {x : Vector Double d} (nonzero : ∃ j, (x.get j).isZero = false) :
    ∃ j, ((x.map (-·)).get j).isZero = false := by
  obtain ⟨j, hj⟩ := nonzero
  refine ⟨j, ?_⟩
  rw [get_map_neg, isZero, abs_neg]
  exact hj

/-- A vector that is not zero and its opposite have the same form. -/
theorem positiveForm_neg {x : Vector Double d} (numbers : ∀ j, (x.get j).kind ≠ .nan)
    (nonzero : ∃ j, (x.get j).isZero = false) : positiveForm (x.map (-·)) = positiveForm x := by
  have hpos := rank_pivot_positiveForm numbers nonzero
  have hpos' := rank_pivot_positiveForm (numbers_map_neg numbers) (nonzero_map_neg nonzero)
  have hneg := rank_pivot_neg x
  rcases positiveForm_eq_or x with h | h <;>
    rcases positiveForm_eq_or (x.map (-·)) with h' | h' <;> rw [h] at hpos <;> rw [h'] at hpos'
  · omega
  · rw [h, h', map_neg_map_neg]
  · rw [h, h']
  · rw [map_neg_map_neg] at hpos'
    omega

/-- Of a vector that is not zero the form has a positive entry, larger than those before it and not
smaller than any, and is its own form. -/
theorem positiveForm_spec {x : Vector Double d} (numbers : ∀ j, (x.get j).kind ≠ .nan)
    (nonzero : ∃ j, (x.get j).isZero = false) :
    (∃ i, 0 < (positiveForm x).get i ∧
      (∀ j, j < i → ((positiveForm x).get j).abs < ((positiveForm x).get i).abs) ∧
      ∀ j, ¬((positiveForm x).get i).abs < ((positiveForm x).get j).abs) ∧
    positiveForm (positiveForm x) = positiveForm x := by
  have hpos := rank_pivot_positiveForm numbers nonzero
  have hform : (∀ j, ((positiveForm x).get j).kind ≠ .nan) ∧
      ∃ j, ((positiveForm x).get j).isZero = false := by
    rcases positiveForm_eq_or x with h | h <;> rw [h]
    · exact ⟨numbers, nonzero⟩
    · exact ⟨numbers_map_neg numbers, nonzero_map_neg nonzero⟩
  generalize positiveForm x = w at *
  obtain ⟨numbers, nonzero⟩ := hform
  obtain ⟨i, hi, -, hbefore, hall⟩ := exists_pivot numbers nonzero
  rw [hi] at hpos
  refine ⟨⟨i, (zero_lt_iff (numbers i)).mpr hpos, fun j hj => ?_, fun j => ?_⟩, ?_⟩
  · exact (abs_lt_abs_iff (numbers j) (numbers i)).mpr (hbefore j hj)
  · exact mt (abs_lt_abs_iff (numbers i) (numbers j)).mp (Nat.not_lt.mpr (hall j))
  · rw [positiveForm, if_neg]
    rw [hi, lt_zero_iff (numbers i)]
    omega

/-! ## Directions -/

/-- When there are principal directions, and what they are: the forms of the vectors at the first
places. -/
theorem principalDirections_eq_ok_iff {eigen : Eigen Double d} {directions : DenseMatrix Double d k} :
    principalDirections eigen k = .ok directions ↔ ∃ (hpos : 0 < k) (hk : k ≤ d),
      let place (c : Fin k) := (decreasingPlaces eigen.values).get (c.castLE hk)
      let largest := eigen.values.get (place ⟨0, hpos⟩)
      (0 < largest ∧
        ¬eigen.values.get (place ⟨k - 1, Nat.sub_one_lt_of_lt hpos⟩) ≤ largest * rankTolerance) ∧
      directions = DenseMatrix.ofColumns
        (Vector.ofFn fun c => positiveForm (eigen.vectors.get (place c))) := by
  rw [principalDirections]
  split
  · next h =>
    simp only [exists_prop_of_true h.1, exists_prop_of_true h.2]
    split
    · next hrank => exact ⟨fun heq => ⟨hrank, (Except.ok.inj heq).symm⟩, fun hd => hd.2 ▸ rfl⟩
    · next hrank => exact iff_of_false nofun fun hd => hrank hd.1
  · next h => exact iff_of_false nofun fun ⟨hpos, hk, _⟩ => h ⟨hpos, hk⟩

/-- Solvers that find the same pairs lead to the same directions. -/
theorem principalDirections_congr {eigen eigen' : Eigen Double d}
    (distinct : Function.Injective eigen.values.get)
    (numbers : ∀ i j, ((eigen.vectors.get i).get j).kind ≠ .nan)
    (nonzero : ∀ i, ∃ j, ((eigen.vectors.get i).get j).isZero = false)
    (same : eigen.SamePairs eigen') :
    principalDirections eigen k = principalDirections eigen' k := by
  obtain ⟨place, hplace⟩ := same
  have hplaces := decreasingPlaces_of_perm place distinct fun i => (hplace i).1
  have hvalue : ∀ (n : Nat) (hn : n < d), eigen'.values[(decreasingPlaces eigen'.values)[n]] =
      eigen.values[(decreasingPlaces eigen.values)[n]] := by
    intro n hn
    have h := (hplace (decreasingPlaces eigen.values)[n]).1
    simp only [hplaces, Vector.getElem_map]
    exact h
  have hvector : ∀ (n : Nat) (hn : n < d),
      positiveForm eigen'.vectors[(decreasingPlaces eigen'.values)[n]] =
        positiveForm eigen.vectors[(decreasingPlaces eigen.values)[n]] := by
    intro n hn
    simp only [hplaces, Vector.getElem_map]
    rcases (hplace (decreasingPlaces eigen.values)[n]).2 with h | h
    · exact congrArg positiveForm h
    · exact (congrArg positiveForm h).trans (positiveForm_neg (numbers _) (nonzero _))
  rw [principalDirections, principalDirections]
  by_cases hk : 0 < k ∧ k ≤ d
  · simp only [dif_pos hk, hvalue, hvector]
  · rw [dif_neg hk, dif_neg hk]

/-- The principal directions depend on the pairs of eigenvalue and eigenvector only. If there are any,
then each is an eigenvector or its opposite, those of the largest eigenvalues in decreasing order; its
first entry of largest magnitude is positive; and it is its own positive form. -/
theorem principal_directions_are_canonical {eigen eigen' : Eigen Double d}
    (distinct : Function.Injective eigen.values.get)
    (finite : ∀ i j, ((eigen.vectors.get i).get j).isFinite = true)
    (nonzero : ∀ i, ∃ j, ((eigen.vectors.get i).get j).isZero = false)
    (same : eigen.SamePairs eigen') :
    principalDirections eigen k = principalDirections eigen' k ∧
    ∀ directions, principalDirections eigen k = .ok directions →
      ∃ place : Fin k → Fin d, Function.Injective place ∧
        (∀ c i, (∀ c' ≤ c, place c' ≠ i) →
          totalOrder (eigen.values.get i) (eigen.values.get (place c)) = .lt ∧
            ¬eigen.values.get (place c) < eigen.values.get i) ∧
        ∀ c, (directions.column c = eigen.vectors.get (place c) ∨
            directions.column c = (eigen.vectors.get (place c)).map (-·)) ∧
          (∃ i, 0 < directions.get i c ∧
            (∀ j, j < i → (directions.get j c).abs < (directions.get i c).abs) ∧
            ∀ j, ¬(directions.get i c).abs < (directions.get j c).abs) ∧
          positiveForm (directions.column c) = directions.column c := by
  have numbers := fun i j => not_nan_of_isFinite (finite i j)
  refine ⟨principalDirections_congr distinct numbers nonzero same, fun directions h => ?_⟩
  obtain ⟨-, hk, -, rfl⟩ := principalDirections_eq_ok_iff.mp h
  obtain ⟨hinjective, hdecreasing⟩ := get_decreasingPlaces distinct
  refine ⟨fun c => (decreasingPlaces eigen.values).get (c.castLE hk), fun c c' hc => ?_,
    fun c i hi => ?_, fun c => ?_⟩
  · exact Fin.castLE_injective hk (hinjective hc)
  · have hlt := hdecreasing (c.castLE hk) i fun c' hc' => hi ⟨c', Nat.lt_of_le_of_lt hc' c.isLt⟩ hc'
    refine ⟨hlt, fun hgt => ?_⟩
    have hself := totalOrder_trans hlt (totalOrder_of_lt hgt)
    rw [totalOrder_eq_iff.mpr rfl] at hself
    cases hself
  · simp only [← DenseMatrix.get_column, DenseMatrix.column_ofColumns]
    have hcolumn : (Vector.ofFn fun c : Fin k => positiveForm (eigen.vectors.get
        ((decreasingPlaces eigen.values).get (c.castLE hk)))).get c = positiveForm
          (eigen.vectors.get ((decreasingPlaces eigen.values).get (c.castLE hk))) := by
      simp [Vector.get_eq_getElem]
    rw [hcolumn]
    obtain ⟨hfirst, hform⟩ := positiveForm_spec (numbers _) (nonzero _)
    exact ⟨positiveForm_eq_or _, hfirst, hform⟩

/-- Two pairs in decreasing order, then in increasing order with the first vector turned: the direction
of the larger eigenvalue is the vector whose largest entry is positive. -/
theorem principal_directions_are_canonical_of_two :
    let a : Double := ⟨0x3fe3333333333333⟩
    let b : Double := ⟨0x3fe999999999999a⟩
    let eigen : Eigen Double 2 := ⟨#v[two, 1], #v[#v[a, -b], #v[b, a]]⟩
    let eigen' : Eigen Double 2 := ⟨#v[1, two], #v[#v[b, a], #v[-a, b]]⟩
    principalDirections eigen 1 = .ok ⟨#v[#v[-a], #v[b]]⟩ ∧
      principalDirections eigen' 1 = .ok ⟨#v[#v[-a], #v[b]]⟩ ∧
      ∃ place : Fin 1 → Fin 2, eigen.vectors.get (place 0) = #v[a, -b] := by
  intro a b eigen eigen'
  have hplaces : decreasingPlaces (#v[two, 1] : Vector Double 2) = #v[0, 1] := by
    refine Vector.toList_inj.mp ((toList_decreasingPlaces _).trans ?_)
    exact List.mergeSort_of_pairwise (by decide +kernel)
  have hdirections : principalDirections eigen 1 = .ok ⟨#v[#v[-a], #v[b]]⟩ := by
    refine principalDirections_eq_ok_iff.mpr ⟨by decide, by decide, ?_⟩
    simp only [eigen, hplaces]
    decide +kernel
  obtain ⟨hsame, hcanonical⟩ := @principal_directions_are_canonical 2 1 eigen eigen'
    (by decide +kernel) (by decide +kernel) (by decide +kernel)
    ⟨Equiv.swap 0 1, by decide +kernel⟩
  obtain ⟨place, -, -, hcolumns⟩ := hcanonical _ hdirections
  have hvector : ∀ i, (DenseMatrix.mk #v[#v[-a], #v[b]]).column 0 = eigen.vectors.get i ∨
      (DenseMatrix.mk #v[#v[-a], #v[b]]).column 0 = (eigen.vectors.get i).map (-·) →
        eigen.vectors.get i = #v[a, -b] := by decide +kernel
  exact ⟨hdirections, hsame ▸ hdirections, place, hvector _ (hcolumns 0).1⟩

end SignHash
