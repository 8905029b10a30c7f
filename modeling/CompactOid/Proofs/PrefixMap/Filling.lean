import CompactOid.PrefixMap.Filling
import CompactOid.Proofs.Bytes.Buffer
import CompactOid.Proofs.PrefixMap.Writing

namespace CompactOid

/-! Filling a buffer writes the map of its records.

The size that a draft adds up while entries are taken in is exactly the one that
its parts take up, so no part is ever refused and the last one ends where the
buffer does.
-/

theorem Frame.put_filled (front : Bytes) (frame : Frame) (room : Nat) :
    put (Buffer.filled front (frame.size + room)) frame =
      (.ok (), Buffer.filled (front ++ frame.bytes) room) := by
  have size : frame.size + room =
      Width.w16.size + (Width.w16.size + (frame.body.length + room)) := by
    simp only [Frame.size, headerSize, Width.size]
    omega
  simp only [put, size, Buffer.write_filled, Buffer.writeBytes_filled, List.append_assoc]
  simp only [Width.size, bytes, List.append_assoc]

theorem Frame.putAll_filled (frames : List Frame) (front : Bytes) (room : Nat) :
    putAll (Buffer.filled front (recordsSize frames + room)) frames =
      (.ok (), Buffer.filled (front ++ frames.flatMap bytes) room) := by
  induction frames generalizing front with
  | nil =>
      rw [recordsSize_nil, Nat.zero_add, List.flatMap_nil, List.append_nil]
      rfl
  | cons frame later ih =>
      rw [recordsSize_cons, Nat.add_assoc, putAll, put_filled]
      simp only [ih, List.flatMap_cons, List.append_assoc]

namespace PrefixMap

theorem Draft.fill_ofFrames (frames : List Frame) :
    (ofFrames frames).fill = (.ok (), ⟨Frame.mapBytes frames, Frame.mapSize frames⟩) := by
  have size : Frame.mapSize frames =
      Width.w32.size + (Width.w32.size + (Frame.recordsSize frames + 0)) := by
    rw [Frame.mapSize_eq]
    simp only [Frame.mapHeaderSize, Width.size]
    omega
  have blank : Buffer.ofBytes (List.replicate (Frame.mapSize frames) 0) =
      Buffer.filled [] (Width.w32.size + (Width.w32.size + (Frame.recordsSize frames + 0))) := by
    rw [← size]
    rfl
  simp only [fill, ofFrames, List.length_reverse, List.reverse_reverse, blank,
    Buffer.write_filled, Frame.putAll_filled, Buffer.filled_full, List.nil_append]
  change (Except.ok (), Buffer.mk (Frame.mapBytes frames) (Frame.mapBytes frames).length) = _
  rw [Frame.length_mapBytes]

theorem writeInPlace_eq_write (entries : List Entry) : writeInPlace entries = write entries := by
  rw [writeInPlace, write]
  cases drafted : entries.foldlM Draft.add Draft.empty with
  | error fault => rfl
  | ok draft =>
      obtain ⟨_, _, rfl⟩ := foldlM_add_empty_iff.mp drafted
      simp only [Draft.fill_ofFrames, Draft.reverse_frames_ofFrames]

end PrefixMap

end CompactOid
