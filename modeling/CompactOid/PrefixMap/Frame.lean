import CompactOid.Bytes.LittleEndian
import CompactOid.Reference

namespace CompactOid

/-! Prefix maps as sequences of frames.

A map is a header of two 32-bit numbers, the number of its records and its whole
size, and then the records.  A record is a code, the size of its body, both in
16 bits, and the body.  A `Frame` is a record of which the body is not yet read
as an identifier.
-/

structure Frame where
  code : Code
  body : Bytes
deriving DecidableEq, Repr

namespace Frame

def mapHeaderSize : Nat := 8

def headerSize : Nat := 4

def size (frame : Frame) : Nat :=
  headerSize + frame.body.length

def bytes (frame : Frame) : Bytes :=
  LittleEndian.encode 2 frame.code.toNat ++ LittleEndian.encode 2 frame.body.length ++ frame.body

/-- The size of a map that holds exactly these frames. -/
def mapSize (frames : List Frame) : Nat :=
  frames.foldl (fun total frame => total + frame.size) mapHeaderSize

def mapBytes (frames : List Frame) : Bytes :=
  LittleEndian.encode 4 frames.length ++ LittleEndian.encode 4 (mapSize frames) ++
    frames.flatMap bytes

end Frame

end CompactOid
