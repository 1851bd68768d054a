import Mathlib.Data.Rat.Sqrt
import SignHash.Proofs.Procrustes

/-!
# Turns of the refinement

Each turn of `refine` takes the signs that are nearest to the rotated descriptors, then the rotation
that brings the descriptors nearest to these signs. Neither step can make the distance greater, as
long as the arithmetic and the singular value decompositions are exact. So the distances that are
recorded never rise, however many turns there are.
-/

namespace SignHash

universe u

/-! ## Runs -/

section Runs

variable {α : Type u} [Add α] [Sub α] [Mul α] [Neg α] [Zero α] [One α] [LE α] [DecidableLE α]
  {n k : Nat} (svd : DenseMatrix α k k → Svd α k) (projected : DenseMatrix α n k)
  (start : DenseMatrix α k k)

/-- The rotation after so many turns. -/
def rotationAfter : Nat → DenseMatrix α k k
  | 0 => start
  | turns + 1 =>
    nearestRotation svd projected ((projected * rotationAfter turns).map binarize)

/-- The signs of the descriptors, rotated as they are after so many turns. -/
def signsAfter (turns : Nat) : DenseMatrix α n k :=
  (projected * rotationAfter svd projected start turns).map binarize

/-- The matrix that the next turn decomposes. -/
def productAfter (turns : Nat) : DenseMatrix α k k :=
  projected.transpose * signsAfter svd projected start turns

/-- The squared distance that the next turn leaves. -/
def squaredErrorAfter (turns : Nat) : α :=
  (projected * rotationAfter svd projected start (turns + 1) -
    signsAfter svd projected start turns).normSquared

variable [SquareRoot α]

/-- A turn more at the front is a turn more in all. -/
theorem rotationAfter_refineOnce (turns : Nat) :
    rotationAfter svd projected (refineOnce svd projected start).1 turns =
      rotationAfter svd projected start (turns + 1) := by
  induction turns with
  | zero => rfl
  | succ turns ih => rw [rotationAfter, ih, ← rotationAfter]

theorem squaredErrorAfter_refineOnce (turns : Nat) :
    squaredErrorAfter svd projected (refineOnce svd projected start).1 turns =
      squaredErrorAfter svd projected start (turns + 1) := by
  simp only [squaredErrorAfter, signsAfter, rotationAfter_refineOnce]

/-- A run is a turn, and if that has not converged, the run from where it leads. -/
theorem refine_succ (tolerance : α) (turns : Nat) (previous : Option α) :
    refine svd tolerance projected (turns + 1) previous start =
      if hasConverged tolerance previous (refineOnce svd projected start).2 then
        ((refineOnce svd projected start).1, [(refineOnce svd projected start).2])
      else
        let rest := refine svd tolerance projected turns (some (refineOnce svd projected start).2)
          (refineOnce svd projected start).1
        (rest.1, (refineOnce svd projected start).2 :: rest.2) := rfl

/-- A run goes through the rotations one by one and records what each turn leaves. -/
theorem exists_refine_eq (tolerance : α) (turns : Nat) (previous : Option α) :
    ∃ count ≤ turns, refine svd tolerance projected turns previous start =
      (rotationAfter svd projected start count,
        (List.range count).map fun t => sqrt (squaredErrorAfter svd projected start t)) := by
  induction turns generalizing previous start with
  | zero => exact ⟨0, le_rfl, rfl⟩
  | succ turns ih =>
    rw [refine_succ]
    by_cases hconverged :
        hasConverged tolerance previous (refineOnce svd projected start).2 = true
    · refine ⟨1, by omega, ?_⟩
      rw [if_pos hconverged]
      rfl
    · obtain ⟨count, hcount, hrest⟩ := ih (refineOnce svd projected start).1
        (some (refineOnce svd projected start).2)
      refine ⟨count + 1, by omega, ?_⟩
      rw [if_neg hconverged, hrest, rotationAfter_refineOnce, List.range_succ_eq_map, List.map_cons,
        List.map_map]
      simp only [squaredErrorAfter_refineOnce]
      rfl

end Runs

/-! ## The two steps of a turn -/

section Steps

variable {K : Type u} [Field K] [LinearOrder K] {n k : Nat}
variable {svd : DenseMatrix K k k → Svd K k} {projected : DenseMatrix K n k}
  {start : DenseMatrix K k k}

/-- A turn leads to an orthogonal matrix, wherever it starts. -/
theorem rotationAfter_succ_isOrthogonal {t : Nat}
    (exact : (svd (productAfter svd projected start t)).IsExact (productAfter svd projected start t)) :
    (rotationAfter svd projected start (t + 1)).IsOrthogonal := nearestRotation_isOrthogonal exact

variable [IsStrictOrderedRing K]

/-- No other sign is nearer to a number than its own. -/
theorem sub_binarize_mul_self_le (x : K) {sign : K} (hsign : sign = 1 ∨ sign = -1) :
    (x - binarize x) * (x - binarize x) ≤ (x - sign) * (x - sign) := by
  rw [binarize]
  by_cases hx : 0 ≤ x
  · rw [if_pos hx]
    rcases hsign with rfl | rfl
    · exact le_rfl
    · linarith
  · rw [if_neg hx]
    rcases hsign with rfl | rfl
    · linarith
    · exact le_rfl

/-- No signs are nearer to a matrix than its own. -/
theorem normSquared_sub_binarize_le (C D : DenseMatrix K n k) :
    (C - C.map binarize).normSquared ≤ (C - D.map binarize).normSquared := by
  rw [DenseMatrix.normSquared_eq_sum, DenseMatrix.normSquared_eq_sum]
  refine Finset.sum_le_sum fun j _ => Finset.sum_le_sum fun i _ => ?_
  rw [DenseMatrix.get_sub, DenseMatrix.get_sub, DenseMatrix.get_map, DenseMatrix.get_map]
  refine sub_binarize_mul_self_le (C.get i j) ?_
  rw [binarize]
  by_cases hsign : 0 ≤ D.get i j
  · exact .inl (if_pos hsign)
  · exact .inr (if_neg hsign)

/-- No orthogonal matrix is nearer to the signs of a turn than the one that the turn leads to. -/
theorem squaredErrorAfter_le {t : Nat}
    (exact : (svd (productAfter svd projected start t)).IsExact (productAfter svd projected start t))
    {Q : DenseMatrix K k k} (hQ : Q.IsOrthogonal) :
    squaredErrorAfter svd projected start t ≤
      (projected * Q - signsAfter svd projected start t).normSquared :=
  normSquared_nearestRotation_le exact hQ

/-- Taking the signs again does not lead further away. -/
theorem normSquared_after_le (t : Nat) :
    (projected * rotationAfter svd projected start (t + 1) -
        signsAfter svd projected start (t + 1)).normSquared ≤
      squaredErrorAfter svd projected start t :=
  normSquared_sub_binarize_le _ _

/-- So no turn moves away from the signs. -/
theorem squaredErrorAfter_le_of_le {s t : Nat} (hle : s ≤ t)
    (exact : ∀ r ≤ t,
      (svd (productAfter svd projected start r)).IsExact (productAfter svd projected start r)) :
    squaredErrorAfter svd projected start t ≤ squaredErrorAfter svd projected start s := by
  induction t, hle using Nat.le_induction with
  | base => exact le_rfl
  | succ t _ ih =>
    have hrotation := rotationAfter_succ_isOrthogonal (exact t (Nat.le_succ t))
    calc squaredErrorAfter svd projected start (t + 1)
        ≤ (projected * rotationAfter svd projected start (t + 1) -
            signsAfter svd projected start (t + 1)).normSquared :=
          squaredErrorAfter_le (exact (t + 1) le_rfl) hrotation
      _ ≤ squaredErrorAfter svd projected start t := normSquared_after_le t
      _ ≤ squaredErrorAfter svd projected start s := ih fun r hr => exact r (Nat.le_succ_of_le hr)

variable [SquareRoot K]

/-- The refinement never moves away from signs. If the decompositions that it asks for are exact, the
rotation of each turn is orthogonal and the nearest to the signs of that turn, and the distance falls
or stays at each step. -/
theorem refine_never_moves_away (svd : DenseMatrix K k k → Svd K k) (tolerance : K)
    (projected : DenseMatrix K n k) (turns : Nat) {start : DenseMatrix K k k}
    (orthogonal : start.IsOrthogonal)
    (exact : ∀ t < (refine svd tolerance projected turns none start).2.length,
      (svd (productAfter svd projected start t)).IsExact (productAfter svd projected start t)) :
    ∃ count ≤ turns,
      refine svd tolerance projected turns none start =
        (rotationAfter svd projected start count,
          (List.range count).map fun t => sqrt (squaredErrorAfter svd projected start t)) ∧
      (∀ t < count,
        rotationAfter svd projected start (t + 1) =
          (svd (productAfter svd projected start t)).left *
            (svd (productAfter svd projected start t)).right ∧
        (rotationAfter svd projected start (t + 1)).IsOrthogonal ∧
        ∀ Q : DenseMatrix K k k, Q.IsOrthogonal → squaredErrorAfter svd projected start t ≤
          (projected * Q - signsAfter svd projected start t).normSquared) ∧
      (∀ t < count, squaredErrorAfter svd projected start t ≤
        (projected * rotationAfter svd projected start t -
          signsAfter svd projected start t).normSquared) ∧
      (∀ s t, s ≤ t → t < count →
        squaredErrorAfter svd projected start t ≤ squaredErrorAfter svd projected start s) ∧
      ((∀ t < count, sqrt (squaredErrorAfter svd projected start t) *
          sqrt (squaredErrorAfter svd projected start t) = squaredErrorAfter svd projected start t) →
        (refine svd tolerance projected turns none start).2.Pairwise fun earlier later =>
          later * later ≤ earlier * earlier) := by
  obtain ⟨count, hcount, hrun⟩ := exists_refine_eq svd projected start tolerance turns none
  have hexact : ∀ t < count,
      (svd (productAfter svd projected start t)).IsExact (productAfter svd projected start t) := by
    intro t ht
    refine exact t ?_
    rwa [hrun, List.length_map, List.length_range]
  have horthogonal : ∀ t ≤ count, (rotationAfter svd projected start t).IsOrthogonal := by
    intro t ht
    cases t with
    | zero => exact orthogonal
    | succ t => exact rotationAfter_succ_isOrthogonal (hexact t ht)
  have hfall : ∀ s t, s ≤ t → t < count →
      squaredErrorAfter svd projected start t ≤ squaredErrorAfter svd projected start s :=
    fun s t hle ht => squaredErrorAfter_le_of_le hle fun r hr => hexact r (hr.trans_lt ht)
  refine ⟨count, hcount, hrun, ?_, ?_, hfall, ?_⟩
  · intro t ht
    exact ⟨rfl, horthogonal (t + 1) ht, fun Q hQ => squaredErrorAfter_le (hexact t ht) hQ⟩
  · intro t ht
    exact squaredErrorAfter_le (hexact t ht) (horthogonal t ht.le)
  · intro hroot
    rw [hrun, List.pairwise_map]
    refine List.pairwise_lt_range.imp_of_mem fun {s t} hs ht hlt => ?_
    rw [hroot s (List.mem_range.mp hs), hroot t (List.mem_range.mp ht)]
    exact hfall s t hlt.le (List.mem_range.mp ht)

end Steps

/-! ### A run over rational numbers -/

/-- The root of a rational number, if that is rational. -/
instance : SquareRoot ℚ := ⟨Rat.sqrt⟩

/-- The decomposition of a matrix that is zero below its first row. The rows on the right are those
of a quaternion's matrix, which are orthogonal to each other. -/
def firstRowSvd (M : DenseMatrix ℚ 4 4) : Svd ℚ 4 :=
  let a := M.get 0 0
  let b := M.get 0 1
  let c := M.get 0 2
  let d := M.get 0 3
  let length := sqrt (a * a + b * b + c * c + d * d)
  let rows : DenseMatrix ℚ 4 4 :=
    ⟨#v[#v[a, b, c, d], #v[-b, a, -d, c], #v[-c, d, a, -b], #v[-d, -c, b, a]]⟩
  ⟨DenseMatrix.identity 4, #v[length, 0, 0, 0], rows.map (· / length)⟩

/-- Two descriptors that lie opposite each other, so that their signs agree where they are zero. -/
def oppositeRows : DenseMatrix ℚ 2 4 := ⟨#v[#v[16 / 3, 0, 0, 0], #v[-2, 0, 0, 0]]⟩

/-- Three turns of opposite rows, which move nearer and then stay. -/
theorem refine_never_moves_away_of_opposite_rows :
    (refine firstRowSvd 0 oppositeRows 5 none (DenseMatrix.identity 4)).2 = [14 / 3, 10 / 3, 10 / 3] ∧
    (∀ Q : DenseMatrix ℚ 4 4, Q.IsOrthogonal →
      squaredErrorAfter firstRowSvd oppositeRows (DenseMatrix.identity 4) 1 ≤
        (oppositeRows * Q -
          signsAfter firstRowSvd oppositeRows (DenseMatrix.identity 4) 1).normSquared) ∧
    (refine firstRowSvd 0 oppositeRows 5 none (DenseMatrix.identity 4)).2.Pairwise
      fun earlier later => later * later ≤ earlier * earlier := by
  have herrors : (refine firstRowSvd 0 oppositeRows 5 none (DenseMatrix.identity 4)).2 =
      [14 / 3, 10 / 3, 10 / 3] := by decide +kernel
  have horthogonal : (DenseMatrix.identity 4 : DenseMatrix ℚ 4 4).IsOrthogonal := by decide +kernel
  have hexact : ∀ t < (refine firstRowSvd 0 oppositeRows 5 none (DenseMatrix.identity 4)).2.length,
      (firstRowSvd (productAfter firstRowSvd oppositeRows (DenseMatrix.identity 4) t)).IsExact
        (productAfter firstRowSvd oppositeRows (DenseMatrix.identity 4) t) := by
    rw [herrors]
    decide +kernel
  obtain ⟨count, -, hrun, hnearest, -, -, hrecorded⟩ :=
    refine_never_moves_away firstRowSvd 0 oppositeRows 5 horthogonal hexact
  have hcount : count = 3 := by
    have hlength := congrArg (fun run => run.2.length) hrun
    rw [herrors, List.length_map, List.length_range] at hlength
    exact hlength.symm
  subst hcount
  refine ⟨herrors, fun Q hQ => (hnearest 1 (by decide)).2.2 Q hQ, hrecorded ?_⟩
  decide +kernel

end SignHash
