import SignHash.Error
import SignHash.Json.Decode

/-!
# Fitting parameters

How many bits the codes have, and how the rotation is refined.
-/

namespace SignHash

/-- How a model is fitted. -/
structure FitParams where
  /-- The number of bits in each code. -/
  bitLength : Nat
  /-- The most refinements of the rotation. -/
  maxIterations : Nat
  /-- The seed of the first rotation; without one it is drawn. -/
  seed : Option Nat
  /-- Whether descriptors are first scaled to length one. -/
  normalize : Bool
  /-- Refinement ends once an error falls by no more than this part of the one before. -/
  tolerance : Double
  deriving DecidableEq

namespace FitParams

/-- The most refinements if nothing is said. -/
def defaultIterations : Nat := 50

/-- The tolerance if nothing is said: one ten millionth. -/
def defaultTolerance : Double := ⟨0x3e7ad7f29abcaf48⟩

/-- The parameters for codes of so many bits, with all else as if nothing is said. -/
def ofBitLength (bits : Nat) : FitParams := ⟨bits, defaultIterations, none, false, defaultTolerance⟩

/-- The first issue with parameters, whatever the corpus, if there is one. -/
def issue? (p : FitParams) : Option ConfigurationIssue :=
  if p.bitLength = 0 then some .noBits
  else if p.maxIterations = 0 then some .noIterations
  else if p.tolerance.isFinite ∧ 0 ≤ p.tolerance then none
  else some .badTolerance

/-- Parameters that have no issue. -/
def validate (p : FitParams) : Except Error Unit :=
  match p.issue? with
  | some issue => .error (.configuration issue)
  | none => .ok ()

/-! ## In JSON -/

open Json

/-- Parameters as a record. -/
def toJson (p : FitParams) : Document :=
  .object
    [("bit_length", .integer p.bitLength), ("max_iterations", .integer p.maxIterations),
      ("random_seed", match p.seed with | some seed => .integer seed | none => .null),
      ("normalize", .bool p.normalize), ("convergence_tolerance", .double p.tolerance)]

/-- The parameters that a record describes. -/
def ofJson? (v : Value) : Option FitParams := do
  match ← v.asFields?
    ["bit_length", "max_iterations", "random_seed", "normalize", "convergence_tolerance"] with
  | [bits, iterations, seed, normalize, tolerance] =>
    return {
      bitLength := ← Value.required Value.asWord? bits
      maxIterations := ← Value.optional defaultIterations Value.asWord? iterations
      seed := ← Value.optional none (·.asOption? Value.asWord?) seed
      normalize := ← Value.optional false Value.asBool? normalize
      tolerance := ← Value.optional defaultTolerance Value.asDouble? tolerance }
  | _ => none

end FitParams

end SignHash
