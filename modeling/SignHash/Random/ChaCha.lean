/-!
# Seeded random words

The ChaCha stream with eight rounds, as a source of 64-bit words. A seed of 64 bits is expanded into
a key of eight words by a linear congruential generator whose output is rotated by its highest bits.
-/

namespace SignHash.Random

/-- A 32-bit word rotated to the left by a number of bits below thirty-two. -/
def rotateLeft (x : UInt32) (bits : UInt32) : UInt32 := (x <<< bits) ||| (x >>> ((32 - bits) % 32))

/-- A block of sixteen words. -/
abbrev Words := Vector UInt32 16

/-! ## Blocks -/

/-- The mixing of four words of a block. -/
def quarterRound (a b c d : Fin 16) (w : Words) : Words :=
  let w := w.set a (w[a] + w[b])
  let w := w.set d (rotateLeft (w[d] ^^^ w[a]) 16)
  let w := w.set c (w[c] + w[d])
  let w := w.set b (rotateLeft (w[b] ^^^ w[c]) 12)
  let w := w.set a (w[a] + w[b])
  let w := w.set d (rotateLeft (w[d] ^^^ w[a]) 8)
  let w := w.set c (w[c] + w[d])
  w.set b (rotateLeft (w[b] ^^^ w[c]) 7)

/-- A round over the columns of a block and one over its diagonals. -/
def doubleRound (w : Words) : Words :=
  let w := quarterRound 0 4 8 12 w
  let w := quarterRound 1 5 9 13 w
  let w := quarterRound 2 6 10 14 w
  let w := quarterRound 3 7 11 15 w
  let w := quarterRound 0 5 10 15 w
  let w := quarterRound 1 6 11 12 w
  let w := quarterRound 2 7 8 13 w
  quarterRound 3 4 9 14 w

/-- The block that a key and a counter start from. -/
def firstWords (key : Vector UInt32 8) (counter : UInt64) : Words :=
  #v[0x61707865, 0x3320646e, 0x79622d32, 0x6b206574, key[0], key[1], key[2], key[3], key[4],
    key[5], key[6], key[7], counter.toUInt32, (counter >>> 32).toUInt32, 0, 0]

/-- The block of the stream at a counter: eight rounds, added to where they started. -/
def streamBlock (key : Vector UInt32 8) (counter : UInt64) : Words :=
  let start := firstWords key counter
  Vector.zipWith (· + ·) (Nat.repeat doubleRound 4 start) start

/-- The words of a block taken in pairs, the low half first. -/
def pairs (w : Words) : List UInt64 :=
  (List.finRange 8).map fun i =>
    (w[2 * i.val]).toUInt64 ||| ((w[2 * i.val + 1]).toUInt64 <<< 32)

/-! ## The generator -/

/-- A source of random words. -/
structure Generator where
  /-- The key of the stream. -/
  key : Vector UInt32 8
  /-- The counter of the next block. -/
  counter : UInt64
  /-- The words of the last block that are not used yet. -/
  pending : List UInt64

/-- The next state of the seed's expansion. -/
def expandSeed (state : UInt64) : UInt64 := state * 6364136223846793005 + 11634580027462260723

/-- The word of the key that a state of the seed's expansion gives. -/
def keyWord (state : UInt64) : UInt32 :=
  let mixed := (((state >>> 18) ^^^ state) >>> 27).toUInt32
  let bits := (state >>> 59).toUInt32
  rotateLeft mixed ((32 - bits) % 32)

/-- The key of a seed. -/
def keyOfSeed (seed : UInt64) : Vector UInt32 8 :=
  Vector.ofFn fun i => keyWord (Nat.repeat expandSeed (i.val + 1) seed)

namespace Generator

/-- The generator of a seed. -/
def ofSeed (seed : UInt64) : Generator := ⟨keyOfSeed seed, 0, []⟩

/-- The next word. -/
def next (g : Generator) : UInt64 × Generator :=
  match g.pending with
  | word :: rest => (word, { g with pending := rest })
  | [] =>
    match pairs (streamBlock g.key g.counter) with
    | word :: rest => (word, ⟨g.key, g.counter + 1, rest⟩)
    | [] => (0, g)

end Generator

end SignHash.Random
