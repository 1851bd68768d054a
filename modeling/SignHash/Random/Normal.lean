import SignHash.Random.ChaCha
import SignHash.Random.NormalLayers

/-!
# Normally distributed numbers

A number is drawn by choosing one of the layers under the normal density and a place in it. Nearly
every place is under the density with the whole layer; the others are kept or given up by a second
draw, and the tail has a method of its own. The draws that may be given up are counted by a `fuel`
that is far beyond what any stream needs.
-/

namespace SignHash.Random

/-! ## Uniform numbers -/

/-- A number in `[1, 2)` or, with an exponent of one, `[2, 4)`, from the highest bits of a word. -/
def withExponent (exponent : UInt64) (word : UInt64) : Double :=
  ⟨((1023 + exponent) <<< 52) ||| (word >>> 12)⟩

/-- The number three. -/
def three : Double := ⟨0x4008000000000000⟩

/-- One less half the distance from it to the next larger number. -/
def nearlyOne : Double := ⟨0x3fefffffffffffff⟩

/-- A number in `[-1, 1)`. -/
def symmetric (word : UInt64) : Double := withExponent 1 word - three

/-- A number strictly between zero and one. -/
def openUnit (word : UInt64) : Double := withExponent 0 word - nearlyOne

/-- A number in `[0, 1)`: the highest fifty-three bits of a word as a fraction. -/
def unit (word : UInt64) : Double := OfCount.ofCount (word >>> 11).toNat * ⟨0x3ca0000000000000⟩

/-! ## The density -/

/-- The exponential function. -/
def exponential (x : Double) : Double := .ofFloat x.toFloat.exp

/-- The natural logarithm. -/
def logarithm (x : Double) : Double := .ofFloat x.toFloat.log

/-- The normal density, up to a factor. -/
def density (x : Double) : Double := exponential (-x * x / Double.two)

/-! ## Draws -/

/-- A number from the tail, on the side of the given sign. -/
def drawTail (negative : Bool) : Nat → Generator → Double × Generator
  | 0, g => (tailStart, g)
  | fuel + 1, g =>
    let (a, g) := g.next
    let (b, g) := g.next
    let x := logarithm (openUnit a) / tailStart
    let y := logarithm (openUnit b)
    if -Double.two * y < x * x then drawTail negative fuel g
    else if negative then (x - tailStart, g)
    else (tailStart - x, g)

/-- A normally distributed number. -/
def drawNormal : Nat → Generator → Double × Generator
  | 0, g => (0, g)
  | fuel + 1, g =>
    let (word, g) := g.next
    let layer := (word &&& 0xff).toNat
    let u := symmetric word
    let x := u * layerEnds.getD layer 0
    if x.abs < layerEnds.getD (layer + 1) 0 then (x, g)
    else if layer = 0 then drawTail (u < 0) 1000000 g
    else
      let (second, g) := g.next
      let low := layerHeights.getD layer 0
      let high := layerHeights.getD (layer + 1) 0
      if high + (low - high) * unit second < density x then (x, g) else drawNormal fuel g

/-- So many normally distributed numbers in a row. -/
def drawNormals : Nat → Generator → List Double
  | 0, _ => []
  | n + 1, g =>
    let (x, g) := drawNormal 1000000 g
    x :: drawNormals n g

end SignHash.Random
