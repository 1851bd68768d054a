import SignHash.Fit.Basic

/-!
# What a fit needs

A fit has a model exactly if the parameters have no issue, on their own and with the size of the
corpus, the descriptors vary in enough directions, and a trace has room for all refinements. The model
then has the dimension of the corpus and as many bits as the parameters ask for.
-/

namespace SignHash

/-- The rows of a corpus as they are fitted, before the mean is subtracted. -/
def fittedRows (c : Corpus) (p : FitParams) : DenseMatrix Double c.size c.dimension :=
  scaleRows p.normalize c.matrix

/-- The rows of a corpus as they are fitted. -/
def centredRows (c : Corpus) (p : FitParams) : DenseMatrix Double c.size c.dimension :=
  subtractFromRows (columnMeans (fittedRows c p)) (fittedRows c p)

/-- The rotation that a fit comes to with given directions, and the distances on the way. -/
def refinedRotation (c : Corpus) (p : FitParams) (seed : Nat)
    (projection : DenseMatrix Double c.dimension p.bitLength) :
    DenseMatrix Double p.bitLength p.bitLength × List Double :=
  refine singularValues p.tolerance (centredRows c p * projection) p.maxIterations none
    (randomRotation p.bitLength seed)

theorem FitParams.validate_eq_ok_iff {p : FitParams} : p.validate = .ok () ↔ p.issue? = none := by
  rw [validate]
  cases p.issue? <;> simp

theorem FitParams.issue?_eq_none_iff {p : FitParams} : p.issue? = none ↔
    p.bitLength ≠ 0 ∧ p.maxIterations ≠ 0 ∧ p.tolerance.isFinite = true ∧ 0 ≤ p.tolerance := by
  rw [issue?]
  by_cases hbits : p.bitLength = 0
  · simp [hbits]
  · by_cases hturns : p.maxIterations = 0
    · simp [hbits, hturns]
    · by_cases htolerance : p.tolerance.isFinite = true ∧ 0 ≤ p.tolerance
      · simp [hbits, hturns, htolerance]
      · rw [if_neg hbits, if_neg hturns, if_neg htolerance]
        exact iff_of_false nofun fun h => htolerance h.2.2

theorem bounds_of_principalDirections {d k : Nat} {eigen : Eigen Double d}
    {directions : DenseMatrix Double d k} (h : principalDirections eigen k = .ok directions) :
    1 ≤ k ∧ k ≤ d := by
  rw [principalDirections] at h
  split at h
  · next hk => exact hk
  · cases h

/-- A fit that is out of proportion to its corpus fails. -/
theorem fit_of_sizeIssue {c : Corpus} {p : FitParams} {drawn : Nat} {e : Error}
    (valid : p.issue? = none) (h : sizeIssue? c p = some e) : fit c p drawn = .error (.error e) := by
  rw [fit, FitParams.validate_eq_ok_iff.mpr valid, h]
  rfl

/-- What a fit comes to that is in proportion to its corpus. -/
theorem fit_of_sized {c : Corpus} {p : FitParams} {drawn : Nat} (valid : p.issue? = none)
    (sized : sizeIssue? c p = none) :
    fit c p drawn =
      match principalDirections (symmetricEigen (covariance (centredRows c p))) p.bitLength with
      | .error e => .error (.error e)
      | .ok projection =>
        if traceLimit < p.maxIterations then .error (.fault .traceCapacity)
        else .ok ⟨⟨c.dimension, p.bitLength, columnMeans (fittedRows c p), projection,
            (refinedRotation c p (p.seed.getD drawn) projection).1, p.normalize⟩,
          p.seed.getD drawn, (refinedRotation c p (p.seed.getD drawn) projection).2⟩ := by
  rw [fit, FitParams.validate_eq_ok_iff.mpr valid, sized]
  simp only [orStop, bind, Except.bind, fittedRows, centredRows, refinedRotation]
  cases principalDirections _ _ <;> rfl

/-- A fit has a model exactly if nothing is in its way, and which one it is. -/
theorem fit_eq_ok_iff {c : Corpus} {p : FitParams} {drawn : Nat} {f : Fit} :
    fit c p drawn = .ok f ↔ p.issue? = none ∧ sizeIssue? c p = none ∧
      p.maxIterations ≤ traceLimit ∧
      ∃ projection, principalDirections (symmetricEigen (covariance (centredRows c p))) p.bitLength =
          .ok projection ∧
        f = ⟨⟨c.dimension, p.bitLength, columnMeans (fittedRows c p), projection,
              (refinedRotation c p (p.seed.getD drawn) projection).1, p.normalize⟩,
            p.seed.getD drawn, (refinedRotation c p (p.seed.getD drawn) projection).2⟩ := by
  cases hvalid : p.issue? with
  | some issue =>
    rw [fit, FitParams.validate, hvalid]
    exact iff_of_false nofun fun h => nomatch h.1
  | none =>
    cases hsize : sizeIssue? c p with
    | some e =>
      rw [fit_of_sizeIssue hvalid hsize]
      exact iff_of_false nofun fun h => nomatch h.2.1
    | none =>
      rw [fit_of_sized hvalid hsize]
      generalize principalDirections _ _ = directions
      cases directions with
      | error e => simp
      | ok projection =>
        by_cases htrace : traceLimit < p.maxIterations
        · simp [htrace, Nat.not_le.mpr htrace]
        · simp [htrace, Nat.not_lt.mp htrace, eq_comm]

/-- A fitted model has the dimension of the corpus and as many bits as were asked for, at least one and
no more than there are dimensions. -/
theorem shape_of_fit {c : Corpus} {p : FitParams} {drawn : Nat} {f : Fit}
    (h : fit c p drawn = .ok f) : f.model.dimension = c.dimension ∧
      f.model.bitLength = p.bitLength ∧ 1 ≤ p.bitLength ∧ p.bitLength ≤ c.dimension := by
  obtain ⟨-, -, -, projection, hprojection, rfl⟩ := fit_eq_ok_iff.mp h
  exact ⟨rfl, rfl, bounds_of_principalDirections hprojection⟩

theorem sizeIssue?_eq_none_iff {c : Corpus} {p : FitParams} : sizeIssue? c p = none ↔
    c.size ≠ 0 ∧ p.bitLength ≤ c.dimension ∧ p.bitLength ≤ c.size := by
  rw [sizeIssue?]
  by_cases hempty : c.size = 0
  · simp [hempty]
  · by_cases hmany : c.dimension < p.bitLength
    · simp [hempty, hmany, Nat.not_le.mpr hmany]
    · by_cases hfew : c.size < p.bitLength
      · simp [hempty, hmany, hfew, Nat.not_le.mpr hfew]
      · simp only [hempty, hmany, hfew, if_false, ne_eq, not_false_eq_true, true_and, true_iff]
        omega

theorem sizeIssue?_eq_some {c : Corpus} {p : FitParams} {e : Error} (h : sizeIssue? c p = some e) :
    c.size = 0 ∧ e = .insufficientData .emptyCorpus ∨
      c.size ≠ 0 ∧ c.dimension < p.bitLength ∧
        e = .configuration (.tooManyBits p.bitLength c.dimension) ∨
      p.bitLength ≤ c.dimension ∧ e = .insufficientData (.tooFew c.size p.bitLength) := by
  rw [sizeIssue?] at h
  split at h
  · next hempty => exact .inl ⟨hempty, (Option.some.inj h).symm⟩
  · next hsome =>
    split at h
    · next hmany => exact .inr (.inl ⟨hsome, hmany, (Option.some.inj h).symm⟩)
    · next hmany =>
      split at h
      · exact .inr (.inr ⟨Nat.le_of_not_lt hmany, (Option.some.inj h).symm⟩)
      · cases h

/-- There are at least as many descriptors as bits. -/
theorem bitLength_le_size_of_fit {c : Corpus} {p : FitParams} {drawn : Nat} {f : Fit}
    (h : fit c p drawn = .ok f) : p.bitLength ≤ c.size :=
  (sizeIssue?_eq_none_iff.mp (fit_eq_ok_iff.mp h).2.1).2.2

end SignHash
