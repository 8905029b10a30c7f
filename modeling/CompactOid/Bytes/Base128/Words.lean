import CompactOid.Bytes.Base128

namespace CompactOid.Base128

/-- How many bits of the word are left if no zeros are written in front. -/
def bitCount (word : UInt64) : Nat :=
  64 - word.toBitVec.clz.toNat

/-- The size of the shortest group of the word. -/
def digitCount (word : UInt64) : Nat :=
  max ((bitCount word + 6) / 7) 1

/-- The byte of a group behind which this many come. -/
def digit (word : UInt64) (behind : Nat) : UInt8 :=
  let low := (word >>> UInt64.ofNat (behind * 7) &&& 0x7F).toUInt8
  if 0 < behind then low ||| 0x80 else low

def encodeWord (word : UInt64) : Bytes :=
  (List.range (digitCount word)).reverse.map (digit word)

/-- Goes on with a group of which the word and the size so far are known. -/
def readWordFrom (word : UInt64) (size : Nat) : Bytes → Except Flaw Reading
  | [] => .error .cutOff
  | byte :: rest =>
      if (0xFFFFFFFFFFFFFFFF : UInt64) >>> 7 < word then .error .overflow
      else
        let next := word <<< 7 ||| (byte &&& 0x7F).toUInt64
        if byte &&& 0x80 = 0 then .ok ⟨next.toNat, size + 1, rest⟩
        else readWordFrom next (size + 1) rest

def readWord (bytes : Bytes) : Except Flaw Reading :=
  readWordFrom 0 0 bytes

end CompactOid.Base128
