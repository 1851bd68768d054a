import SignHash.Bytes

/-!
# The checksum of frames

A 32-bit checksum over a byte string: stripes of sixteen bytes feed four running words, which are
joined and mixed with the bytes that are left. Frames use it with the seed zero.
-/

namespace SignHash.Frame

/-! ## The primes that words are multiplied with -/

/-- The prime that a word is multiplied with after it is rotated. -/
def mixPrime : UInt32 := 2654435761

/-- The prime of the words of a stripe. -/
def stripePrime : UInt32 := 2246822519

/-- The prime of the words after the stripes. -/
def wordPrime : UInt32 := 3266489917

/-- The prime for the sum after each of those words. -/
def foldPrime : UInt32 := 668265263

/-- The prime of single bytes, from which short sums start. -/
def bytePrime : UInt32 := 374761393

/-! ## Mixing -/

/-- A word rotated to the left, by more than no bits and less than all. -/
def rotate (x : UInt32) (bits : UInt32) : UInt32 := (x <<< bits) ||| (x >>> (32 - bits))

/-- A running word after four more bytes. -/
def round (sum word : UInt32) : UInt32 :=
  rotate (sum + word * stripePrime) 13 * mixPrime

/-- The word of at most four bytes. -/
def wordOf (bytes : Bytes) : UInt32 := UInt32.ofNat (ofLittleEndian bytes)

/-- The four running words. -/
abbrev Lanes := UInt32 × UInt32 × UInt32 × UInt32

/-- The running words after all whole stripes, and the bytes that are left; at most `fuel` stripes
are taken. -/
def stripes : Nat → Lanes → Bytes → Lanes × Bytes
  | 0, lanes, bytes => (lanes, bytes)
  | fuel + 1, (a, b, c, d), bytes =>
    let stripe := bytes.take 16
    if stripe.length < 16 then ((a, b, c, d), bytes)
    else
      stripes fuel
        (round a (wordOf (stripe.take 4)), round b (wordOf ((stripe.drop 4).take 4)),
          round c (wordOf ((stripe.drop 8).take 4)), round d (wordOf (stripe.drop 12)))
        (bytes.drop 16)

/-- The sum mixed with the bytes that are left: whole words first, then single bytes. -/
def absorb : UInt32 → Bytes → UInt32
  | sum, a :: b :: c :: d :: rest =>
    absorb (rotate (sum + wordOf [a, b, c, d] * wordPrime) 17 * foldPrime) rest
  | sum, b :: rest => absorb (rotate (sum + b.toUInt32 * bytePrime) 11 * mixPrime) rest
  | sum, [] => sum

/-- The last mixing, which lets every bit reach every other. -/
def finish (sum : UInt32) : UInt32 :=
  let sum := (sum ^^^ (sum >>> 15)) * stripePrime
  let sum := (sum ^^^ (sum >>> 13)) * wordPrime
  sum ^^^ (sum >>> 16)

/-- The checksum of a byte string. -/
def checksum (bytes : Bytes) : UInt32 :=
  let length := bytes.length
  let (lanes, rest) :=
    stripes (length / 16) (mixPrime + stripePrime, stripePrime, (0 : UInt32), -mixPrime) bytes
  let (a, b, c, d) := lanes
  let joined :=
    if length < 16 then bytePrime else rotate a 1 + rotate b 7 + rotate c 12 + rotate d 18
  finish (absorb (joined + UInt32.ofNat length) rest)

end SignHash.Frame
