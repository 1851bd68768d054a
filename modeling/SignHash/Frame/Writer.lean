import SignHash.Frame.Reader

/-!
# Writing frames

Content is written in blocks that store it as it is, each as long as the settings allow.
-/

namespace SignHash.Frame

/-- The settings that frames are written with: separate blocks without checksums. -/
def writtenSettings : Settings := ⟨false, false, 65536⟩

/-- The bytes of these settings. -/
def settingsBytes : Bytes := [0x60, 0x40]

/-- The header of a frame. -/
def header : Bytes := magic ++ settingsBytes ++ [headerCheck settingsBytes]

/-- A block that stores bytes. -/
def storedBlock (bytes : Bytes) : Bytes := littleEndian 4 (storedBit + bytes.length) ++ bytes

/-- The mark that ends a frame. -/
def endMark : Bytes := littleEndian 4 0

/-- The blocks of a content, `fuel` of them at most. -/
def blocks : Nat → Bytes → Bytes
  | 0, _ => []
  | _, [] => []
  | fuel + 1, bytes =>
    storedBlock (bytes.take writtenSettings.blockLimit) ++
      blocks fuel (bytes.drop writtenSettings.blockLimit)

/-- The frame of a content. -/
def write (bytes : Bytes) : Bytes := header ++ blocks bytes.length bytes ++ endMark

end SignHash.Frame
