import CompactOid.Event
import CompactOid.Oid.Ber
import CompactOid.PrefixMap.Frame

namespace CompactOid.PrefixMap

structure Draft where
  /-- The frames taken up so far, latest first. -/
  frames : List Frame
  /-- The size of the map if nothing else is taken up. -/
  size : Nat
deriving DecidableEq, Repr

namespace Draft

def empty : Draft :=
  ⟨[], Frame.mapHeaderSize⟩

/-- Takes up one more entry, or tells why the map cannot hold it. -/
def add (draft : Draft) (entry : Entry) : Except Fault Draft :=
  match entry.oid.toBer with
  | .error rule => .error (.invalidArcs rule)
  | .ok body =>
      let frame : Frame := ⟨entry.code, body⟩
      if UInt16.size ≤ body.length then
        .error (.invalidEntry draft.frames.length (.longOid body.length))
      else if UInt32.size ≤ draft.size + frame.size then
        .error (.invalidEntry draft.frames.length .longMap)
      else .ok ⟨frame :: draft.frames, draft.size + frame.size⟩

end Draft

/-- The map of entries in their order, repeated codes included. -/
def write (entries : List Entry) : Logged (Except Fault Bytes) :=
  match entries.foldlM Draft.add Draft.empty with
  | .error fault => .silent (.error fault)
  | .ok draft =>
      if UInt32.size ≤ entries.length then
        .silent (.error (.invalidEntry entries.length .tooManyEntries))
      else
        ⟨.ok (Frame.mapBytes draft.frames.reverse), [.mapWritten entries.length draft.size]⟩

end CompactOid.PrefixMap
