import SignHash.Double
import SignHash.Utf8

/-!
# Descriptors

A descriptor is a vector of numbers under an identifier. Descriptors have an order of their own, by
the bytes of the identifier and then by the bit patterns of the components, in which two descriptors
tie only if they are the same.
-/

namespace SignHash

/-- Identifiers in the order of their bytes. -/
def idOrder (a b : String) : Ordering := compare (Utf8.encode a) (Utf8.encode b)

/-- A feature vector under an identifier. -/
structure Descriptor where
  /-- The name of the descriptor in its source. -/
  id : String
  /-- The numbers that make up the vector. -/
  components : List Double
  deriving DecidableEq

namespace Descriptor

/-- How many components there are. -/
def dimension (d : Descriptor) : Nat := d.components.length

/-- Whether every component is finite. -/
def isFinite (d : Descriptor) : Bool := d.components.all Double.isFinite

/-- The order by identifier, then by the patterns of the components. -/
def order (a b : Descriptor) : Ordering :=
  (idOrder a.id b.id).then (compare (a.components.map (·.bits)) (b.components.map (·.bits)))

end Descriptor

end SignHash
