import CompactOid.Bytes.Buffer
import CompactOid.PrefixMap.Writing

namespace CompactOid

namespace Frame

def put (buffer : Buffer) (frame : Frame) : Except Fault Unit × Buffer :=
  match buffer.write .w16 frame.code.toNat with
  | (.error fault, left) => (.error fault, left)
  | (.ok (), behindCode) =>
      match behindCode.write .w16 frame.body.length with
      | (.error fault, left) => (.error fault, left)
      | (.ok (), behindHeader) => behindHeader.writeBytes frame.body

/-- Puts records one behind the other, up to the first that is refused. -/
def putAll (buffer : Buffer) : List Frame → Except Fault Unit × Buffer
  | [] => (.ok (), buffer)
  | frame :: later =>
      match put buffer frame with
      | (.error fault, left) => (.error fault, left)
      | (.ok (), behind) => putAll behind later

end Frame

namespace PrefixMap

/-- The buffer with the map of a draft, and its offset behind the last record. -/
def Draft.fill (draft : Draft) : Except Fault Unit × Buffer :=
  let blank := Buffer.ofBytes (List.replicate draft.size 0)
  match blank.write .w32 draft.frames.length with
  | (.error fault, left) => (.error fault, left)
  | (.ok (), behindCount) =>
      match behindCount.write .w32 draft.size with
      | (.error fault, left) => (.error fault, left)
      | (.ok (), behindSize) => Frame.putAll behindSize draft.frames.reverse

/-- The map of entries in their order, drafted first and then written into a buffer. -/
def writeInPlace (entries : List Entry) : Logged (Except Fault Bytes) :=
  match entries.foldlM Draft.add Draft.empty with
  | .error fault => .silent (.error fault)
  | .ok draft =>
      if UInt32.size ≤ entries.length then
        .silent (.error (.invalidEntry entries.length .tooManyEntries))
      else match draft.fill with
        | (.error fault, _) => .silent (.error fault)
        | (.ok (), buffer) => ⟨.ok buffer.bytes, [.mapWritten entries.length draft.size]⟩

end PrefixMap

end CompactOid
