import SignHash.Frame.Block
import SignHash.Frame.Header

/-!
# Reading frames

The content of a frame is that of its blocks, in order. `content` is as much of it as can be read:
it ends before the first block that is damaged, cut off or empty, and at the mark that ends the
frame. What follows the mark cannot change what was read, so it is not looked at.
-/

namespace SignHash.Frame

/-- The number of four bytes, and what follows them. -/
def readWord? (bytes : Bytes) : Option (Nat × Bytes) :=
  let word := bytes.take 4
  if word.length = 4 then some (ofLittleEndian word, bytes.drop 4) else none

/-- The bit of a block's size that says that its bytes are stored as they are. -/
def storedBit : Nat := 0x80000000

/-- The bytes of a block after its size, and what follows it; `none` if they are cut off or do not
have the checksum that follows them. -/
def takeBlock (settings : Settings) (size : Nat) (bytes : Bytes) : Option (Bytes × Bytes) := do
  if settings.blockLimit < size || !hasAtLeast size bytes then none
  else
    let block := bytes.take size
    let rest := bytes.drop size
    if settings.checked then
      let (check, rest) ← readWord? rest
      if check = (checksum block).toNat then some (block, rest) else none
    else some (block, rest)

/-! ## Room

The content of a frame is built up in a buffer. If blocks stand alone, the buffer holds one of them.
If they are linked, it holds two and a window before them that matches can reach; when a further
block might not fit, the window moves to the end of what the buffer holds and the content goes on at
its start. Until there is a window of new content, a block may fill all the room before the old one.
-/

/-- How far back a match can reach, rounded up. -/
def window : Nat := 0x10000

/-- Where content goes in the buffer. -/
structure Room where
  /-- How much of the buffer is taken, from its start. -/
  taken : Nat
  /-- The most bytes in a block until a window is taken. -/
  early : Nat
  deriving DecidableEq, Repr

/-- The room at the start of a frame. -/
def Room.start (settings : Settings) : Room := ⟨0, settings.blockLimit⟩

/-- The room after so many bytes. -/
def Room.take (settings : Settings) (room : Room) (size : Nat) : Room :=
  let taken := room.taken + size
  if !settings.linked then room
  else if settings.blockLimit + window < taken then ⟨0, taken - window⟩
  else ⟨taken, room.early⟩

/-- The most bytes that the next compressed block holds. -/
def Room.limit (settings : Settings) (room : Room) : Nat :=
  if room.taken < window then room.early else settings.blockLimit

/-! ## Blocks -/

/-- The content after the next block, and what follows the block; `none` at the end mark. -/
def nextBlock (settings : Settings) (room : Room) (content : Array UInt8) (bytes : Bytes) :
    Option (Array UInt8 × Bytes) := do
  let (size, bytes) ← readWord? bytes
  if size = 0 then none
  else if storedBit ≤ size then
    let (block, bytes) ← takeBlock settings (size - storedBit) bytes
    some (block.foldl Array.push content, bytes)
  else
    let (block, bytes) ← takeBlock settings size bytes
    let history := if settings.linked then 0 else content.size
    let content ← readBlock history (content.size + room.limit settings) block content
    some (content, bytes)

/-- The content of the blocks, `fuel` of them at most. -/
def readBlocks (settings : Settings) : Nat → Room → Array UInt8 → Bytes → Array UInt8
  | 0, _, content, _ => content
  | fuel + 1, room, content, bytes =>
    let size := content.size
    match nextBlock settings room content bytes with
    | none => content
    | some (longer, bytes) =>
      if longer.size = size then content
      else readBlocks settings fuel (room.take settings (longer.size - size)) longer bytes

/-- As much of a frame's content as can be read. -/
def content (bytes : Bytes) : Bytes :=
  match readHeader bytes with
  | none => []
  | some (settings, blocks) =>
    (readBlocks settings bytes.length (Room.start settings) #[] blocks).toList

end SignHash.Frame
