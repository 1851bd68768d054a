import SignHash.Linear.DenseMatrix

/-!
# Plane rotations

A plane rotation turns a pair of numbers, or of vectors entry by entry, by an angle that is given by
its cosine and sine. The rotations here are those that make one of two numbers vanish.
-/

namespace SignHash

variable {n : Nat}

/-- A rotation of a plane. -/
structure PlaneRotation where
  /-- The cosine of the angle. -/
  cos : Double
  /-- The sine of the angle. -/
  sin : Double

namespace PlaneRotation

/-- The rotation that leaves everything in place. -/
def identity : PlaneRotation := ⟨1, 0⟩

/-- The rotation back. -/
def inverse (g : PlaneRotation) : PlaneRotation := ⟨g.cos, -g.sin⟩

/-- The first number of the rotated pair. -/
def first (g : PlaneRotation) (x y : Double) : Double := g.cos * x - g.sin * y

/-- The second number of the rotated pair. -/
def second (g : PlaneRotation) (x y : Double) : Double := g.sin * x + g.cos * y

/-- One with the sign of a number; a zero of either sign counts as positive. -/
def signOf (x : Double) : Double := if 0 ≤ x then 1 else -1

/-- The rotation that makes `y` vanish, and what `x` becomes; `none` if `y` is zero already. -/
def cancelSecond? (x y : Double) : Option (PlaneRotation × Double) :=
  if y.isZero then none
  else
    let length := sqrt (x.abs * x.abs + y * y)
    let signed := signOf x * length
    some (⟨x.abs / length, -y / signed⟩, signed)

/-- The rotation that makes `x` vanish, and what `y` becomes; `none` if `x` is zero already. -/
def cancelFirst? (x y : Double) : Option (PlaneRotation × Double) :=
  if x.isZero then none
  else
    let length := sqrt (y.abs * y.abs + x * x)
    some (⟨y.abs / length, x * signOf y / length⟩, signOf y * length)

/-- The rotation whose cosine and sine are in the ratio of two numbers, and their length with the
sign of the first; `none` if the length does not exceed `least`. -/
def ofRatio? (c s least : Double) : Option (PlaneRotation × Double) :=
  let length := sqrt (c.abs * c.abs + s * s)
  if least < length then
    let signed := signOf c * length
    some (⟨c.abs / length, s / signed⟩, signed)
  else none

/-- The rotation whose cosine and sine are in the ratio of two numbers; no rotation if both are
zero. -/
def ofRatio (c s : Double) : PlaneRotation × Double := (ofRatio? c s 0).getD (identity, 0)

/-- Two of several vectors rotated, entry by entry. -/
def turn {m : Nat} (g : PlaneRotation) (i j : Nat) (vectors : Vector (Vector Double n) m) :
    Vector (Vector Double n) m :=
  match vectors[i]?, vectors[j]? with
  | some x, some y =>
    (vectors.setIfInBounds i (Vector.zipWith g.first x y)).setIfInBounds j
      (Vector.zipWith g.second x y)
  | _, _ => vectors

end PlaneRotation

end SignHash
