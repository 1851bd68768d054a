import SignHash.Corpus
import SignHash.Fit.Params
import SignHash.Fit.Principal
import SignHash.Fit.Rotation
import SignHash.Model.Basic

/-!
# Fitting a model

A corpus is centred and projected onto its principal directions, then the rotation is refined from a
random one. A fit is determined by the corpus, the parameters and the seed; where the parameters
have no seed, the caller draws one.
-/

namespace SignHash

universe u

variable {α : Type u} {n d : Nat}

/-! ## Preparation -/

/-- The components of a descriptor as a vector of the corpus's dimension. -/
def Corpus.vector (c : Corpus) (i : Fin c.size) : Vector Double c.dimension :=
  ⟨(c.vectors.get i).components.toArray, by
    simpa [Descriptor.dimension] using c.uniform _ (List.get_mem c.vectors i)⟩

/-- The descriptors of a corpus as the rows of a matrix. -/
def Corpus.matrix (c : Corpus) : DenseMatrix Double c.size c.dimension := ⟨Vector.ofFn c.vector⟩

/-- The rows of a matrix, scaled to length one if that is asked for. -/
def scaleRows [Add α] [Mul α] [Div α] [Zero α] [SquareRoot α] [LT α] [DecidableLT α]
    (normalize : Bool) (A : DenseMatrix α n d) : DenseMatrix α n d :=
  if normalize then ⟨A.rows.map unitLength⟩ else A

/-- The mean of each column. -/
def columnMeans [Add α] [Div α] [Zero α] [OfCount α] (A : DenseMatrix α n d) : Vector α d :=
  Vector.ofFn fun j => (sumTerms n fun i => A.get i j) / OfCount.ofCount n

/-- The rows of a matrix with a vector subtracted from each. -/
def subtractFromRows [Sub α] (mean : Vector α d) (A : DenseMatrix α n d) : DenseMatrix α n d :=
  DenseMatrix.ofFn fun i j => A.get i j - mean.get j

/-! ## Fits -/

/-- A fitted model, and how it was reached. -/
structure Fit where
  /-- The model. -/
  model : Model Double
  /-- The seed of the first rotation. -/
  seed : Nat
  /-- The distance from the signs after each refinement. -/
  errors : List Double

/-- The most refinements that a trace has room for: eight bytes each, in half of all addresses. -/
def traceLimit : Nat := 0x7fffffffffffffff / 8

/-- The issue that parameters have with the size of a corpus, if there is one. -/
def sizeIssue? (c : Corpus) (p : FitParams) : Option Error :=
  if c.size = 0 then some (.insufficientData .emptyCorpus)
  else if c.dimension < p.bitLength then
    some (.configuration (.tooManyBits p.bitLength c.dimension))
  else if c.size < p.bitLength then some (.insufficientData (.tooFew c.size p.bitLength))
  else none

/-- The model of a corpus; `drawn` is the seed if the parameters have none. -/
def fit (c : Corpus) (p : FitParams) (drawn : Nat) : Except Stop Fit := do
  orStop p.validate
  match sizeIssue? c p with
  | some e => .error (.error e)
  | none =>
    let rows := scaleRows p.normalize c.matrix
    let mean := columnMeans rows
    let centred := subtractFromRows mean rows
    let projection ← orStop (principalDirections (symmetricEigen (covariance centred)) p.bitLength)
    let projected := centred * projection
    let seed := p.seed.getD drawn
    let start := randomRotation p.bitLength seed
    if traceLimit < p.maxIterations then .error (.fault .traceCapacity)
    else
      let (rotation, errors) :=
        refine singularValues p.tolerance projected p.maxIterations none start
      return ⟨⟨c.dimension, p.bitLength, mean, projection, rotation, p.normalize⟩, seed, errors⟩

end SignHash
