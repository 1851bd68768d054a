import SignHash.Proofs.Fit
import SignHash.Proofs.Rotation

/-!
# When a refinement ends

A refinement goes on as long as each distance improves on the one before by more than the tolerated
part of it, and ends with the first that does not. Only the number of turns that are allowed can end
it earlier, and has no other bearing: of two runs that are allowed different numbers of turns, the
shorter one is the beginning of the longer one. All this holds for any numbers, so also where a
comparison fails because a distance is not a number.
-/

namespace SignHash

universe u

/-! ## Traces -/

/-- A trace of distances that ends where it should: no distance fails to improve on the one before but
the last, and that one does fail if more turns are allowed. -/
structure StopsByRule {α : Type u} [Sub α] [Mul α] [LE α] (tolerance : α) (allowed : Nat)
    (errors : List α) : Prop where
  nonempty : errors ≠ []
  length_le : errors.length ≤ allowed
  improves : ∀ before a b c after, errors = before ++ a :: b :: c :: after →
    ¬a - b ≤ tolerance * a
  converged : errors.length < allowed →
    ∃ before a b, errors = before ++ [a, b] ∧ a - b ≤ tolerance * a

section Turns

variable {α : Type u} [Add α] [Sub α] [Mul α] [Neg α] [Zero α] [One α] [LE α] [DecidableLE α]
  [SquareRoot α] {n k : Nat} (svd : DenseMatrix α k k → Svd α k) (projected : DenseMatrix α n k)
  (tolerance : α)

/-- No more refinements are made than allowed. -/
theorem length_refine_le (turns : Nat) (previous : Option α) (start : DenseMatrix α k k) :
    (refine svd tolerance projected turns previous start).2.length ≤ turns := by
  obtain ⟨count, hcount, hrun⟩ := exists_refine_eq svd projected start tolerance turns previous
  rw [hrun, List.length_map, List.length_range]
  exact hcount

/-- At least one refinement is made. -/
theorem refine_ne_nil (turns : Nat) (previous : Option α) (start : DenseMatrix α k k) :
    (refine svd tolerance projected (turns + 1) previous start).2 ≠ [] := by
  rw [refine_succ]
  split <;> exact List.cons_ne_nil _ _

/-- Fewer refinements are the first ones of more. -/
theorem refine_take {turns more : Nat} (hle : turns ≤ more) (previous : Option α)
    (start : DenseMatrix α k k) :
    (refine svd tolerance projected turns previous start).2 =
      (refine svd tolerance projected more previous start).2.take turns := by
  induction turns generalizing more previous start with
  | zero => rfl
  | succ turns ih =>
    obtain ⟨more, rfl⟩ : ∃ m, more = m + 1 := ⟨more - 1, by omega⟩
    rw [refine_succ, refine_succ]
    by_cases hconverged :
        hasConverged tolerance previous (refineOnce svd projected start).2 = true
    · rw [if_pos hconverged, if_pos hconverged, List.take_succ_cons, List.take_nil]
    · rw [if_neg hconverged, if_neg hconverged, List.take_succ_cons]
      exact congrArg _ (ih (Nat.le_of_succ_le_succ hle) _ _)

/-- A run that has ended by itself is not changed by allowing more. -/
theorem refine_eq_of_length_le {turns more : Nat} (hle : turns ≤ more) (previous : Option α)
    (start : DenseMatrix α k k)
    (ended : (refine svd tolerance projected more previous start).2.length ≤ turns) :
    refine svd tolerance projected turns previous start =
      refine svd tolerance projected more previous start := by
  obtain ⟨count, -, hrun⟩ := exists_refine_eq svd projected start tolerance turns previous
  obtain ⟨count', -, hrun'⟩ := exists_refine_eq svd projected start tolerance more previous
  -- the trace tells how many turns a run takes, and the run is determined by that
  have hlength := congrArg List.length (refine_take svd projected tolerance hle previous start)
  rw [List.length_take, Nat.min_eq_right ended, hrun, hrun', List.length_map, List.length_map,
    List.length_range, List.length_range] at hlength
  rw [hrun, hrun', hlength]

/-- With the distance before it in front, a trace never fails to improve before its end, and fails at
the end if turns are left. -/
theorem refine_stops (turns : Nat) (previous : Option α) (start : DenseMatrix α k k) :
    (∀ before a b c after, previous.toList ++ (refine svd tolerance projected turns previous start).2 =
      before ++ a :: b :: c :: after → ¬a - b ≤ tolerance * a) ∧
    ((refine svd tolerance projected turns previous start).2.length < turns →
      ∃ before a b, previous.toList ++ (refine svd tolerance projected turns previous start).2 =
        before ++ [a, b] ∧ a - b ≤ tolerance * a) := by
  induction turns generalizing previous start with
  | zero =>
    refine ⟨fun before a b c after h => ?_, fun h => absurd h (Nat.not_lt_zero _)⟩
    have hlength := congrArg List.length h
    have hfew : previous.toList.length ≤ 1 := by cases previous <;> simp
    simp [refine] at hlength
    omega
  | succ turns ih =>
    obtain ⟨himproves, hconverges⟩ := ih (some (refineOnce svd projected start).2)
      (refineOnce svd projected start).1
    rw [refine_succ]
    cases previous with
    | none =>
      -- there is nothing to compare the first distance with
      exact ⟨himproves, fun h => hconverges (Nat.lt_of_succ_lt_succ h)⟩
    | some previous =>
      by_cases hconverged :
          hasConverged tolerance (some previous) (refineOnce svd projected start).2 = true
      · rw [if_pos hconverged]
        refine ⟨fun before a b c after h => ?_, fun _ => ⟨[], previous, _, rfl, by
          simpa [hasConverged] using hconverged⟩⟩
        have hlength := congrArg List.length h
        simp at hlength
        omega
      · rw [if_neg hconverged]
        refine ⟨fun before a b c after h => ?_, fun h => ?_⟩
        · cases before with
          | nil =>
            obtain ⟨rfl, hrest⟩ := List.cons.inj h
            obtain ⟨rfl, -⟩ := List.cons.inj hrest
            simpa [hasConverged] using hconverged
          | cons x before => exact himproves before a b c after (List.cons.inj h).2
        · obtain ⟨before, a, b, htrace, hlast⟩ := hconverges (Nat.lt_of_succ_lt_succ h)
          exact ⟨previous :: before, a, b, congrArg (previous :: ·) htrace, hlast⟩

/-- Refinement ends by the rule, or with the last that is allowed. -/
theorem refine_stopsByRule {turns : Nat} (positive : 1 ≤ turns) (start : DenseMatrix α k k) :
    StopsByRule tolerance turns (refine svd tolerance projected turns none start).2 := by
  obtain ⟨himproves, hconverges⟩ := refine_stops svd projected tolerance turns none start
  obtain ⟨turns, rfl⟩ : ∃ t, turns = t + 1 := ⟨turns - 1, by omega⟩
  exact ⟨refine_ne_nil svd projected tolerance turns none start,
    length_refine_le svd projected tolerance _ none start, himproves, hconverges⟩

end Turns

/-- A trace does not end with its first distance if more turns are allowed. -/
theorem StopsByRule.allowed_eq_one {α : Type u} [Sub α] [Mul α] [LE α] {tolerance : α}
    {allowed : Nat} {errors : List α} (h : StopsByRule tolerance allowed errors)
    (alone : errors.length = 1) : allowed = 1 := by
  by_contra hmore
  have hle := h.length_le
  obtain ⟨before, a, b, rfl, -⟩ := h.converged (by omega)
  simp at alone

/-! ## Fits -/

/-- The run of a fit that is allowed so many turns. -/
def runWithin (c : Corpus) (p : FitParams) (seed : Nat)
    (projection : DenseMatrix Double c.dimension p.bitLength) (turns : Nat) :
    DenseMatrix Double p.bitLength p.bitLength × List Double :=
  refine singularValues p.tolerance (centredRows c p * projection) turns none
    (randomRotation p.bitLength seed)

theorem fit_turns_eq_ok_iff {c : Corpus} {p : FitParams} {turns drawn : Nat} {f : Fit} :
    fit c { p with maxIterations := turns } drawn = .ok f ↔
      (p.bitLength ≠ 0 ∧ turns ≠ 0 ∧ p.tolerance.isFinite = true ∧ 0 ≤ p.tolerance) ∧
      sizeIssue? c p = none ∧ turns ≤ traceLimit ∧
      ∃ projection, principalDirections (symmetricEigen (covariance (centredRows c p))) p.bitLength =
          .ok projection ∧
        f = ⟨⟨c.dimension, p.bitLength, columnMeans (fittedRows c p), projection,
              (runWithin c p (p.seed.getD drawn) projection turns).1, p.normalize⟩,
            p.seed.getD drawn, (runWithin c p (p.seed.getD drawn) projection turns).2⟩ := by
  rw [fit_eq_ok_iff, FitParams.issue?_eq_none_iff]
  rfl

/-- A fit stops by the rule, and that it is allowed fewer turns does nothing but end it earlier. -/
theorem fewer_turns_only_truncate {c : Corpus} {p : FitParams} {seed drawn' : Nat} {f' : Fit}
    (fewer more drawn : Nat) (seeded : p.seed = some seed) (positive : 1 ≤ fewer) (hle : fewer ≤ more)
    (fitted : fit c { p with maxIterations := more } drawn' = .ok f') :
    ∃ f, fit c { p with maxIterations := fewer } drawn = .ok f ∧
      f.errors = f'.errors.take (min fewer f'.errors.length) ∧
      (f'.errors.length ≤ fewer → f.model = f'.model) ∧
      StopsByRule p.tolerance fewer f.errors ∧ StopsByRule p.tolerance more f'.errors ∧
      (f.errors.length = 1 → fewer = 1) := by
  have hseed : p.seed.getD drawn' = p.seed.getD drawn := by rw [seeded]; rfl
  obtain ⟨⟨hbits, -, htolerance⟩, hsize, hlimit, projection, hprojection, rfl⟩ :=
    fit_turns_eq_ok_iff.mp fitted
  rw [hseed]
  have hstops : ∀ turns, 1 ≤ turns →
      StopsByRule p.tolerance turns (runWithin c p (p.seed.getD drawn) projection turns).2 :=
    fun turns hturns => refine_stopsByRule _ _ _ hturns _
  refine ⟨_, fit_turns_eq_ok_iff.mpr ⟨⟨hbits, Nat.ne_of_gt positive, htolerance⟩, hsize,
    hle.trans hlimit, projection, hprojection, rfl⟩, ?_, fun ended => ?_, hstops fewer positive,
    hstops more (positive.trans hle), fun alone => (hstops fewer positive).allowed_eq_one alone⟩
  · rw [← List.take_take, List.take_length]
    exact refine_take _ _ _ hle _ _
  · have hrun : runWithin c p (p.seed.getD drawn) projection fewer =
        runWithin c p (p.seed.getD drawn) projection more :=
      refine_eq_of_length_le _ _ _ hle _ _ ended
    rw [hrun]

/-- Of two descriptors that lie opposite each other, signs leave nothing, so the second turn is the
last, however many are allowed. -/
theorem fewer_turns_only_truncate_of_opposite :
    let c : Corpus := ⟨[⟨"a", [1]⟩, ⟨"b", [-1]⟩], 1, by decide⟩
    let p : FitParams := ⟨1, 5, some 7, false, 0⟩
    ∃ f f₃ f₁, fit c p 0 = .ok f ∧ fit c { p with maxIterations := 3 } 0 = .ok f₃ ∧
      fit c { p with maxIterations := 1 } 0 = .ok f₁ ∧
      f.errors = [0, 0] ∧ f₃.errors = [0, 0] ∧ f₃.model = f.model ∧ f₁.errors = [0] := by
  intro c p
  have herrors : (fit c p 0).toOption.map (·.errors) = some [0, 0] := by decide +kernel
  obtain ⟨f, hf, hzeros⟩ : ∃ f, fit c p 0 = .ok f ∧ f.errors = [0, 0] := by
    cases hfit : fit c p 0 with
    | error stop =>
      rw [hfit] at herrors
      cases herrors
    | ok f =>
      rw [hfit] at herrors
      exact ⟨f, rfl, Option.some.inj herrors⟩
  obtain ⟨f₃, hf₃, htrace₃, hmodel, -⟩ :=
    fewer_turns_only_truncate (p := p) 3 5 0 rfl (by decide) (by decide) hf
  obtain ⟨f₁, hf₁, htrace₁, -⟩ :=
    fewer_turns_only_truncate (p := p) 1 5 0 rfl (by decide) (by decide) hf
  rw [hzeros] at htrace₃ htrace₁ hmodel
  exact ⟨f, f₃, f₁, hf, hf₃, hf₁, hzeros, htrace₃, hmodel (by decide), htrace₁⟩

end SignHash
