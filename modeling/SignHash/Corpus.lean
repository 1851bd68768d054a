import SignHash.Descriptor
import SignHash.Error

/-!
# Training corpora

A corpus is what a model is fitted to: descriptors of one dimension with finite components, in the
order of descriptors. So the order in which they arrived leaves no trace.
-/

namespace SignHash

/-- Descriptors of one dimension, in their order. -/
structure Corpus where
  /-- The descriptors. -/
  vectors : List Descriptor
  /-- The dimension that they share; zero if there are none. -/
  dimension : Nat
  /-- They do share it. -/
  uniform : ∀ v ∈ vectors, v.dimension = dimension
  deriving DecidableEq

namespace Corpus

/-- How many descriptors there are. -/
def size (c : Corpus) : Nat := c.vectors.length

/-- Whether there are none. -/
def isEmpty (c : Corpus) : Bool := c.vectors.isEmpty

/-- The issue that a descriptor has in a corpus of a dimension. -/
def issue? (dimension : Nat) (v : Descriptor) : Option ValidationIssue :=
  if v.dimension ≠ dimension then some (.dimensions v.id v.dimension dimension)
  else if !v.isFinite then some (.nonFinite v.id)
  else none

/-- The issue of the first descriptor that has one. -/
def firstIssue? (dimension : Nat) (vectors : List Descriptor) : Option ValidationIssue :=
  vectors.findSome? (issue? dimension)

/-- The dimension of the first descriptor. -/
def sharedDimension : List Descriptor → Nat
  | [] => 0
  | v :: _ => v.dimension

/-- The descriptors in their order. -/
def sorted (vectors : List Descriptor) : List Descriptor :=
  vectors.mergeSort fun a b => (Descriptor.order a b).isLE

theorem dimension_eq_of_issue?_eq_none {dimension : Nat} {v : Descriptor}
    (h : issue? dimension v = none) : v.dimension = dimension := by
  unfold issue? at h
  split at h
  · cases h
  · next hd => exact Decidable.not_not.mp hd

theorem uniform_sorted {dimension : Nat} {vectors : List Descriptor}
    (h : firstIssue? dimension vectors = none) :
    ∀ v ∈ sorted vectors, v.dimension = dimension := by
  intro v hv
  exact dimension_eq_of_issue?_eq_none
    (List.findSome?_eq_none_iff.mp h v ((List.mergeSort_perm _ _).mem_iff.mp hv))

/-- The corpus of descriptors in any order, or the issue of the first that does not fit. -/
def ofList (vectors : List Descriptor) : Except Error Corpus :=
  match h : firstIssue? (sharedDimension vectors) vectors with
  | some issue => .error (.validation issue)
  | none => .ok ⟨sorted vectors, sharedDimension vectors, uniform_sorted h⟩

end Corpus

end SignHash
