import CompactOid.Bytes.Base128
import CompactOid.Fault

namespace CompactOid

/-! Bytes of a fixed number with an offset that reads and writes advance.

The offset may stand anywhere, also behind the end.  Every answer comes with the
buffer that is left, which after a fault is there just as after a success.
-/

structure Buffer where
  bytes : Bytes
  offset : Nat
deriving DecidableEq, Repr

namespace Buffer

def ofBytes (bytes : Bytes) : Buffer :=
  ⟨bytes, 0⟩

def seek (buffer : Buffer) (offset : Nat) : Buffer :=
  ⟨buffer.bytes, offset⟩

/-- The bytes from the offset on. -/
def rest (buffer : Buffer) : Bytes :=
  buffer.bytes.drop buffer.offset

def remaining (buffer : Buffer) : Nat :=
  buffer.bytes.length - buffer.offset

def hasMore (buffer : Buffer) : Bool :=
  buffer.offset < buffer.bytes.length

/-- Whether the bytes from the offset on, as many as given, all exist. -/
def holds (buffer : Buffer) (size : Nat) : Bool :=
  buffer.offset + size ≤ buffer.bytes.length

/-- The sum of two machine words, unless it wraps around. -/
def checkedAdd? (left right : UInt64) : Option UInt64 :=
  let sum := left + right
  if sum < left then none else some sum

/-- The bounds that `holds` tells, by machine words. -/
def inBounds (length offset size : UInt64) : Bool :=
  match checkedAdd? offset size with
  | some stop => stop ≤ length
  | none => false

/-- The number at the offset, with the offset behind it. -/
def read (buffer : Buffer) (width : Width) : Except Fault Nat × Buffer :=
  if buffer.holds width.size then
    (.ok (LittleEndian.decode (buffer.rest.take width.size)),
      buffer.seek (buffer.offset + width.size))
  else (.error .outOfBounds, buffer)

def first (buffer : Buffer) (width : Width) : Except Fault Nat :=
  ((buffer.seek 0).read width).1

/-- The next bytes, as many as asked for, with the offset behind them. -/
def take (buffer : Buffer) (count : Nat) : Except Fault Bytes × Buffer :=
  if buffer.remaining < count then (.error .outOfBounds, buffer)
  else (.ok (buffer.rest.take count), buffer.seek (buffer.offset + count))

/-- The number of the group at the offset, with the offset behind the group. -/
def group (buffer : Buffer) : Except Fault Nat × Buffer :=
  match Base128.read buffer.rest with
  | .ok reading => (.ok reading.value, buffer.seek (buffer.offset + reading.size))
  | .error .cutOff => (.error .outOfBounds, buffer)
  | .error .overflow => (.error (.malformedBer (.overflow buffer.offset)), buffer)

/-- Puts bytes over those at the offset, with the offset behind them. -/
def writeBytes (buffer : Buffer) (written : Bytes) : Except Fault Unit × Buffer :=
  if buffer.holds written.length then
    (.ok (), ⟨buffer.bytes.take buffer.offset ++ written ++
        buffer.bytes.drop (buffer.offset + written.length),
      buffer.offset + written.length⟩)
  else (.error .outOfBounds, buffer)

def write (buffer : Buffer) (width : Width) (value : Nat) : Except Fault Unit × Buffer :=
  buffer.writeBytes (LittleEndian.encode width.size value)

end Buffer

end CompactOid
