import SignHash.Code.Basic
import SignHash.Descriptor
import SignHash.Model.Basic

/-!
# Encoding

A descriptor's code has a bit for each column of the projection times the rotation: the bit is set
if the hyperplane that the column is normal to passes below the descriptor, prepared as the corpus
was.
-/

namespace SignHash

universe u

/-- A hyperplane through the origin. -/
structure Hyperplane (α : Type u) where
  /-- The vector that it is normal to. -/
  coefficients : List α
  deriving DecidableEq

/-- The sum of the products of two lists from left to right, `none` if their lengths differ. -/
def dotProduct? {α : Type u} [Add α] [Mul α] [Zero α] (x y : List α) : Option α :=
  if x.length = y.length then
    match List.zipWith (· * ·) x y with
    | [] => some 0
    | first :: rest => some (rest.foldl (· + ·) first)
  else none

/-- Whether a hyperplane passes below a point or through it. It counts as passing through a point of
another dimension. -/
def Hyperplane.isBelow {α : Type u} [Add α] [Mul α] [Zero α] [LE α] [DecidableLE α]
    (h : Hyperplane α) (point : List α) : Bool :=
  0 ≤ (dotProduct? h.coefficients point).getD 0

namespace Model

variable {α : Type u} [Add α] [Sub α] [Mul α] [Div α] [Zero α] [SquareRoot α] [LE α]
  [DecidableLE α] [LT α] [DecidableLT α]

/-- The hyperplanes of a model, one for each bit. -/
def hyperplanes (m : Model α) : List (Hyperplane α) :=
  let combined := m.projection * m.rotation
  (List.finRange m.bitLength).map fun c => ⟨(combined.column c).toList⟩

/-- A vector as the model's corpus was prepared: scaled if the model says so, the mean subtracted.
-/
def prepare (m : Model α) (x : Vector α m.dimension) : Vector α m.dimension :=
  Vector.zipWith (· - ·) (if m.normalize then unitLength x else x) m.mean

/-- The bits of a prepared vector against hyperplanes. -/
def bitsAgainst (planes : List (Hyperplane α)) (prepared : List α) : List Bool :=
  planes.map (·.isBelow prepared)

/-- The bits of a vector. -/
def bits (m : Model α) (x : Vector α m.dimension) : List Bool :=
  bitsAgainst m.hyperplanes (m.prepare x).toList

end Model

/-- A model with its hyperplanes at hand. -/
structure Encoder where
  /-- The model. -/
  model : Model Double
  /-- The model's hyperplanes. -/
  planes : List (Hyperplane Double)
  deriving DecidableEq

namespace Encoder

/-- The encoder of a model. -/
def ofModel (m : Model Double) : Encoder := ⟨m, m.hyperplanes⟩

/-- The code of components: there have to be as many as the model's dimension, all finite. -/
def encodeComponents (e : Encoder) (components : List Double) : Except ValidationIssue Code :=
  if h : components.length = e.model.dimension then
    if components.all Double.isFinite then
      let x : Vector Double e.model.dimension := ⟨components.toArray, by simpa using h⟩
      .ok (Code.ofBits (Model.bitsAgainst e.planes (e.model.prepare x).toList))
    else .error .nonFiniteComponents
  else .error (.componentCount e.model.dimension components.length)

/-- The code of a descriptor; an issue names the descriptor. -/
def encode (e : Encoder) (d : Descriptor) : Except Error Code :=
  match e.encodeComponents d.components with
  | .ok code => .ok code
  | .error issue => .error (.validation (.ofDescriptor d.id issue))

/-- The codes of descriptors, in their order, or the issue of the first that has one. -/
def encodeAll (e : Encoder) (ds : List Descriptor) : Except Error (List Code) := ds.mapM e.encode

end Encoder

end SignHash
