import SignHash.Proofs.CheckedFit

/-!
# What can come of a fit

A fit with checks comes to what it comes to on matrices of known shape, unless there is no room for the
components or for the covariance. So no check ever stops it but for room: that, or the room of the trace,
which is asked for by the number of refinements that are allowed, however few are needed. Nor does anything
else, but a matrix that a solver has no result for. With solvers that always have a result, it comes to
what the fit without checks comes to.
-/

namespace SignHash.Checked

variable {d k : Nat} {solvers : Solvers} {c : Corpus} {p : FitParams}

/-! ## The whole fit -/

/-- What is prepared, if there is room for the components. -/
theorem prepared_eq_ok (pos : 0 < c.size) (components : c.size * c.dimension ≤ traceLimit) :
    prepared c p.normalize =
      .ok (⟨c.dimension, 1, .ofColumns #v[columnMeans (fittedRows c p)]⟩,
        ⟨c.size, c.dimension, centredRows c p⟩) := by
  have hmean : c.dimension * 1 ≤ traceLimit := by
    rw [Nat.mul_one]
    exact (Nat.le_mul_of_pos_left _ pos).trans components
  rw [prepared, data_eq_ok p.normalize components, ok_bind, mean_eq_ok pos hmean, ok_bind,
    centred_eq_ok components]
  rfl

theorem prepared_eq_trap (full : traceLimit < c.size * c.dimension) :
    prepared c p.normalize = .error (.trap .capacity) := by
  rw [prepared, data, reserve_eq_error full]
  rfl

/-- The turns are what they are without checks, if the trace has room for all that are allowed. -/
theorem refined_eq (room : Room c.size c.dimension p.bitLength) (seed : Nat)
    (projection : DenseMatrix Double c.dimension p.bitLength) :
    refined solvers p seed ⟨c.size, c.dimension, centredRows c p⟩
        ⟨c.dimension, p.bitLength, projection⟩ = do
      let start ← solved (solvers.svd (normalMatrix p.bitLength seed))
      reserve p.maxIterations
      let (rotation, errors) ← solved (turns solvers p.tolerance (centredRows c p * projection)
        p.maxIterations none start.left)
      return (⟨p.bitLength, p.bitLength, rotation⟩, errors) := by
  have hprojected : c.size * p.bitLength ≤ traceLimit := room.mul_bits_le (.inl (Nat.le_refl _))
  have hsquare : p.bitLength * p.bitLength ≤ traceLimit := room.mul_bits_le (.inl room.descriptors)
  rw [refined, Grid.mul_mk, Grid.store_eq_ok hprojected, ok_bind,
    startRotation_eq seed room.bits hsquare]
  cases solvers.svd (normalMatrix p.bitLength seed) with
  | none => rfl
  | some start =>
    simp only [solved_some, Except.map, ok_bind, refine_eq room]
    cases turns solvers p.tolerance _ _ _ _ <;> rfl

/-- There are enough addresses for the components of a corpus and for their covariance. -/
def HasRoom (c : Corpus) : Prop :=
  c.size * c.dimension ≤ traceLimit ∧ c.dimension * c.dimension ≤ traceLimit

theorem room_of_sized (valid : p.issue? = none) (sized : sizeIssue? c p = none) (room : HasRoom c) :
    Room c.size c.dimension p.bitLength := by
  obtain ⟨hbits, -⟩ := FitParams.issue?_eq_none_iff.mp valid
  obtain ⟨-, hdimension, hsize⟩ := sizeIssue?_eq_none_iff.mp sized
  exact ⟨Nat.pos_of_ne_zero hbits, hdimension, hsize, room.1, room.2⟩

/-- A fit with checks that is in proportion comes to what it comes to on matrices of known shape, if there
is room for the components and the covariance. -/
theorem fit_of_room (valid : p.issue? = none) (sized : sizeIssue? c p = none) (hasRoom : HasRoom c)
    (drawn : Nat) : fit solvers c p drawn = sizedFit solvers c p drawn := by
  have room := room_of_sized valid sized hasRoom
  have hpos : 0 < c.size := Nat.lt_of_lt_of_le room.bits room.descriptors
  rw [fit, valid, sized, sizedFit, prepared_eq_ok hpos room.components]
  simp only [ok_bind, directions_eq room]
  cases solvers.eigen (SignHash.covariance (centredRows c p)) with
  | none => rfl
  | some eigen =>
    simp only [solved_some, ok_bind]
    cases principalDirections eigen p.bitLength with
    | error e => rfl
    | ok projection =>
      simp only [Except.mapError, ok_bind, pure_bind, refined_eq room]
      cases solvers.svd (normalMatrix p.bitLength (p.seed.getD drawn)) with
      | none => rfl
      | some start =>
        simp only [solved_some, ok_bind]
        cases reserve p.maxIterations with
        | error halt => rfl
        | ok _ =>
          simp only [ok_bind]
          cases turns solvers p.tolerance (centredRows c p * projection) p.maxIterations none
              start.left with
          | none => rfl
          | some last =>
            simp only [solved_some, ok_bind, pure_bind, Grid.shaped_mk, DenseMatrix.column_ofColumns]
            rfl

/-- With solvers that always have a result, that is what the fit without checks comes to. -/
theorem sizedFit_total (valid : p.issue? = none) (sized : sizeIssue? c p = none) (drawn : Nat) :
    sizedFit .total c p drawn = (SignHash.fit c p drawn).mapError Stop.halt := by
  rw [fit_of_sized valid sized, sizedFit]
  simp only [turns_total]
  simp only [Solvers.total, solved_some, ok_bind]
  cases principalDirections (symmetricEigen (covariance (centredRows c p))) p.bitLength with
  | error e => rfl
  | ok projection =>
    simp only [Except.mapError, ok_bind]
    by_cases hfull : traceLimit < p.maxIterations
    · rw [if_pos hfull, reserve_eq_error hfull]
      rfl
    · rw [if_neg hfull, reserve_eq_ok (Nat.le_of_not_lt hfull)]
      rfl

/-- Without room for the components or the covariance, a fit has no model. -/
theorem fit_eq_trap (valid : p.issue? = none) (sized : sizeIssue? c p = none) (full : ¬HasRoom c)
    (drawn : Nat) : fit solvers c p drawn = .error (.trap .capacity) := by
  have hpos : 0 < c.size := Nat.pos_of_ne_zero (sizeIssue?_eq_none_iff.mp sized).1
  rw [fit, valid, sized]
  by_cases hcomponents : c.size * c.dimension ≤ traceLimit
  · have hcovariance : traceLimit < c.dimension * c.dimension :=
      Nat.lt_of_not_le fun h => full ⟨hcomponents, h⟩
    rw [prepared_eq_ok hpos hcomponents]
    simp only [ok_bind, directions_eq_trap hcomponents hcovariance]
    rfl
  · rw [prepared_eq_trap (Nat.lt_of_not_le hcomponents)]
    rfl

/-! ## What can come of a fit -/

section

variable (solvers c p) (drawn : Nat)

/-- The directions that a fit finds. -/
def Finds (projection : DenseMatrix Double c.dimension p.bitLength) : Prop :=
  ∃ eigen, solvers.eigen (covariance (centredRows c p)) = some eigen ∧
    principalDirections eigen p.bitLength = .ok projection

/-- There is no room for the trace, when the directions and the first rotation are found. -/
def LacksTrace : Prop :=
  traceLimit < p.maxIterations ∧ (∃ projection, Finds solvers c p projection) ∧
    ∃ start, solvers.svd (normalMatrix p.bitLength (p.seed.getD drawn)) = some start

/-- There is no room for the components or for the covariance, or none for the trace if it comes to
that. -/
def LacksRoom : Prop := ¬HasRoom c ∨ LacksTrace solvers c p drawn

/-- A solver has no result for a matrix that a fit comes to: the covariance, or the matrix that is drawn
when the directions are found, or that of a turn when there is room for the trace. -/
def Unsolved : Prop :=
  solvers.eigen (covariance (centredRows c p)) = none ∨
    ∃ projection, Finds solvers c p projection ∧
      (solvers.svd (normalMatrix p.bitLength (p.seed.getD drawn)) = none ∨
        p.maxIterations ≤ traceLimit ∧
          ∃ start, solvers.svd (normalMatrix p.bitLength (p.seed.getD drawn)) = some start ∧
            turns solvers p.tolerance (centredRows c p * projection) p.maxIterations none
              start.left = none)

end

theorem eq_lowRank_of_principalDirections {eigen : Eigen Double d} {e : Error}
    (h : principalDirections eigen k = .error e) : e = .insufficientData (.lowRank k) := by
  rw [principalDirections] at h
  split at h
  · simp only at h
    split at h <;> cases h
    rfl
  · cases h
    rfl

/-- On matrices of known shape only the trace can lack room. -/
theorem sizedFit_cases (drawn : Nat) :
    LacksTrace solvers c p drawn ∧ ¬Unsolved solvers c p drawn ∧
        sizedFit solvers c p drawn = .error (.trap .capacity) ∨
      ¬LacksTrace solvers c p drawn ∧ Unsolved solvers c p drawn ∧
        sizedFit solvers c p drawn = .error (.trap .unsolved) ∨
      ¬LacksTrace solvers c p drawn ∧ ¬Unsolved solvers c p drawn ∧
        ((∃ f, sizedFit solvers c p drawn = .ok f) ∨
          sizedFit solvers c p drawn = .error (.error (.insufficientData (.lowRank p.bitLength)))) := by
  -- where the run ends is decided by the first of these that is missing
  rw [sizedFit]
  simp only [LacksTrace, Unsolved, Finds]
  cases heigen : solvers.eigen (covariance (centredRows c p)) with
  | none => simp [error_bind]
  | some eigen =>
    rw [solved_some, ok_bind]
    cases hfound : principalDirections eigen p.bitLength with
    | error e =>
      obtain rfl := eq_lowRank_of_principalDirections hfound
      simp [hfound, Except.mapError, error_bind]
    | ok projection =>
      simp only [Except.mapError, ok_bind]
      cases hstart : solvers.svd (normalMatrix p.bitLength (p.seed.getD drawn)) with
      | none => simp [hfound, error_bind]
      | some start =>
        rw [solved_some, ok_bind]
        by_cases hfull : traceLimit < p.maxIterations
        · simp [hfound, hfull, Nat.not_le.mpr hfull, reserve_eq_error hfull, error_bind]
        · have hroom := Nat.le_of_not_lt hfull
          rw [reserve_eq_ok hroom, ok_bind]
          cases hturns : turns solvers p.tolerance (centredRows c p * projection) p.maxIterations
              none start.left with
          | none => simp [hfound, hfull, hroom, hturns]
          | some last =>
            refine .inr (.inr ⟨by simp [hfull], by simp [hfound, hturns], .inl ?_⟩)
            rw [solved_some, ok_bind]
            exact ⟨_, rfl⟩

/-- What a fit comes to that is in proportion to its corpus. -/
theorem fit_cases (solvers : Solvers) (valid : p.issue? = none) (sized : sizeIssue? c p = none)
    (drawn : Nat) :
    LacksRoom solvers c p drawn ∧ ¬(HasRoom c ∧ Unsolved solvers c p drawn) ∧
        fit solvers c p drawn = .error (.trap .capacity) ∨
      ¬LacksRoom solvers c p drawn ∧ (HasRoom c ∧ Unsolved solvers c p drawn) ∧
        fit solvers c p drawn = .error (.trap .unsolved) ∨
      ¬LacksRoom solvers c p drawn ∧ ¬(HasRoom c ∧ Unsolved solvers c p drawn) ∧
        ((∃ f, fit solvers c p drawn = .ok f) ∨
          fit solvers c p drawn = .error (.error (.insufficientData (.lowRank p.bitLength)))) := by
  rw [LacksRoom]
  by_cases hroom : HasRoom c
  · rw [fit_of_room valid sized hroom, or_iff_right (not_not_intro hroom), and_iff_right hroom]
    exact sizedFit_cases drawn
  · exact .inl ⟨.inl hroom, fun h => hroom h.1, fit_eq_trap valid sized hroom drawn⟩

/-- With parameters that have no issue and with any solvers, a fit with checks has a model, or fails for too
many bits or for too little data, or lacks room, or comes to a matrix that a solver has no result for. It
fails for too many bits exactly if a corpus that is not empty has fewer dimensions. It is stopped exactly
if it is in proportion to its corpus and lacks room, or has room and comes to a matrix without a result, so
that no place, shape or divisor ever stops it. Where there is room for the components and the covariance,
with solvers that always have a result, it comes to what the fit comes to. -/
theorem fits_trap_for_room_or_unsolved (solvers : Solvers) {c : Corpus} {p : FitParams}
    (valid : p.validate = .ok ()) (drawn : Nat) :
    ((∃ f, fit solvers c p drawn = .ok f) ∨
      fit solvers c p drawn =
        .error (.error (.configuration (.tooManyBits p.bitLength c.dimension))) ∨
      (∃ issue, fit solvers c p drawn = .error (.error (.insufficientData issue))) ∨
      fit solvers c p drawn = .error (.trap .capacity) ∨
      fit solvers c p drawn = .error (.trap .unsolved)) ∧
    ((∃ issue, fit solvers c p drawn = .error (.error (.configuration issue))) ↔
      c.size ≠ 0 ∧ c.dimension < p.bitLength) ∧
    (fit solvers c p drawn = .error (.trap .capacity) ↔
      (c.size ≠ 0 ∧ p.bitLength ≤ c.dimension ∧ p.bitLength ≤ c.size) ∧
        LacksRoom solvers c p drawn) ∧
    (fit solvers c p drawn = .error (.trap .unsolved) ↔
      (c.size ≠ 0 ∧ p.bitLength ≤ c.dimension ∧ p.bitLength ≤ c.size) ∧
        HasRoom c ∧ Unsolved solvers c p drawn) ∧
    (HasRoom c → fit .total c p drawn = (SignHash.fit c p drawn).mapError Stop.halt) := by
  replace valid := FitParams.validate_eq_ok_iff.mp valid
  rw [← sizeIssue?_eq_none_iff]
  cases hsize : sizeIssue? c p with
  | some e =>
    -- what is out of proportion fails before any room is asked for
    have hfit : ∀ solvers, fit solvers c p drawn = .error (.error e) := by
      intro solvers
      rw [fit, valid, hsize]
    rw [hfit, hfit, fit_of_sizeIssue valid hsize]
    rcases sizeIssue?_eq_some hsize with ⟨hempty, rfl⟩ | ⟨hsome, hmany, rfl⟩ | ⟨hmany, rfl⟩
    · simp [hempty, Except.mapError, Stop.halt]
    · simp [hsome, hmany, Except.mapError, Stop.halt]
    · simp [Nat.not_lt.mpr hmany, Except.mapError, Stop.halt]
  | none =>
    obtain ⟨-, hdimension, -⟩ := sizeIssue?_eq_none_iff.mp hsize
    have hsame : HasRoom c → fit .total c p drawn = (SignHash.fit c p drawn).mapError Stop.halt := by
      intro hroom
      rw [fit_of_room valid hsize hroom, sizedFit_total valid hsize]
    refine and_assoc.mp (and_assoc.mp (and_assoc.mp ⟨?_, hsame⟩))
    rcases fit_cases solvers valid hsize drawn with
        ⟨hroom, hsolved, hfit⟩ | ⟨hroom, hsolved, hfit⟩ | ⟨hroom, hsolved, ⟨f, hfit⟩ | hfit⟩ <;>
      rw [hfit] <;>
      simp [hroom, hsolved, Nat.not_lt.mpr hdimension]

/-- The corpus of one and its opposite. -/
def opposites : Corpus := ⟨[⟨"a", [1]⟩, ⟨"b", [-1]⟩], 1, by decide⟩

/-- One and its opposite are fitted, and nothing stops the fit, if five refinements are allowed. -/
theorem fits_trap_for_room_or_unsolved_of_five :
    (∃ f, fit .total opposites ⟨1, 5, some 7, false, 0⟩ 0 = .ok f) ∧
      ¬LacksRoom .total opposites ⟨1, 5, some 7, false, 0⟩ 0 ∧
      ¬Unsolved .total opposites ⟨1, 5, some 7, false, 0⟩ 0 := by
  obtain ⟨-, -, hcapacity, hunsolved, hsame⟩ := fits_trap_for_room_or_unsolved .total (c := opposites)
    (p := ⟨1, 5, some 7, false, 0⟩) (by decide +kernel) 0
  obtain ⟨f, hfit⟩ : ∃ f, SignHash.fit opposites ⟨1, 5, some 7, false, 0⟩ 0 = .ok f :=
    exists_ok_of_isSome (by decide +kernel)
  have hroom : HasRoom opposites := by
    rw [HasRoom]
    decide
  replace hfit : fit .total opposites ⟨1, 5, some 7, false, 0⟩ 0 = .ok f := by
    rw [hsame hroom, hfit]
    rfl
  rw [hfit] at hcapacity hunsolved
  refine ⟨⟨f, hfit⟩, fun h => ?_, fun h => ?_⟩
  · cases hcapacity.mpr ⟨by decide, h⟩
  · cases hunsolved.mpr ⟨by decide, hroom, h⟩

/-- With as many refinements allowed as a word can count, their fit is stopped. -/
theorem fit_traps_for_iterations :
    ¬∀ (ds : List Descriptor) (c : Corpus) (p : FitParams) (drawn : Nat),
      Corpus.ofList ds = .ok c → p.validate = .ok () →
        (∃ f, SignHash.fit c p drawn = .ok f) ∨
        (∃ issue, SignHash.fit c p drawn = .error (.error (.configuration issue))) ∨
        ∃ issue, SignHash.fit c p drawn = .error (.error (.insufficientData issue)) := by
  intro h
  have hsorted : opposites.vectors = Corpus.sorted opposites.vectors :=
    Corpus.eq_of_pairwise_order (List.mergeSort_perm _ _).symm (by decide) (Corpus.pairwise_sorted _)
  have hmade : Corpus.ofList opposites.vectors = .ok opposites :=
    Corpus.ofList_eq_ok_iff.mpr ⟨⟨1, by decide⟩, hsorted, rfl⟩
  have htrap : SignHash.fit opposites ⟨1, 2 ^ 64 - 1, some 7, false, 0⟩ 0 =
      .error (.fault .traceCapacity) := by
    obtain ⟨projection, hprojection⟩ : ∃ projection, principalDirections (symmetricEigen
        (covariance (centredRows opposites ⟨1, 2 ^ 64 - 1, some 7, false, 0⟩))) 1 =
          .ok projection := exists_ok_of_isSome (by decide +kernel)
    rw [fit_of_sized (by decide +kernel) (by decide +kernel), hprojection]
    exact if_pos (by decide)
  have houtcome := h _ opposites ⟨1, 2 ^ 64 - 1, some 7, false, 0⟩ 0 hmade (by decide +kernel)
  rw [htrap] at houtcome
  simp at houtcome

end SignHash.Checked
