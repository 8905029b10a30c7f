import CompactOid.PrefixMap.Frame

namespace CompactOid.Frame

def recordsSize : List Frame → Nat
  | [] => 0
  | frame :: later => frame.size + recordsSize later

@[simp] theorem recordsSize_nil : recordsSize [] = 0 := rfl

@[simp] theorem recordsSize_cons (frame : Frame) (later : List Frame) :
    recordsSize (frame :: later) = frame.size + recordsSize later := rfl

theorem recordsSize_sublist {kept frames : List Frame} (part : kept.Sublist frames) :
    recordsSize kept ≤ recordsSize frames := by
  induction part with
  | slnil => exact Nat.le_refl _
  | cons frame part ih => exact Nat.le_trans ih (Nat.le_add_left _ _)
  | cons_cons frame part ih => exact Nat.add_le_add_left ih frame.size

theorem mapSize_eq (frames : List Frame) :
    mapSize frames = mapHeaderSize + recordsSize frames := by
  simp only [mapSize]
  generalize mapHeaderSize = total
  induction frames generalizing total with
  | nil => rfl
  | cons frame later ih => rw [List.foldl_cons, ih, recordsSize_cons, Nat.add_assoc]

theorem headerSize_le_size (frame : Frame) : headerSize ≤ frame.size :=
  Nat.le_add_right _ _

/-- Frames that are each of some size at least are that much for each of them. -/
theorem mul_length_le_recordsSize {least : Nat} {frames : List Frame}
    (large : ∀ frame ∈ frames, least ≤ frame.size) :
    least * frames.length ≤ recordsSize frames := by
  induction frames with
  | nil => exact Nat.zero_le _
  | cons frame later ih =>
      obtain ⟨first, others⟩ := List.forall_mem_cons.mp large
      rw [List.length_cons, Nat.mul_succ, Nat.add_comm, recordsSize_cons]
      exact Nat.add_le_add first (ih others)

theorem length_lt_mapSize (frames : List Frame) : frames.length < mapSize frames := by
  have least := mul_length_le_recordsSize fun frame (_ : frame ∈ frames) => headerSize_le_size frame
  rw [mapSize_eq, mapHeaderSize]
  rw [headerSize] at least
  omega

@[simp] theorem length_bytes (frame : Frame) : frame.bytes.length = frame.size := by
  simp [bytes, size, headerSize]
  omega

theorem length_records (frames : List Frame) :
    (frames.flatMap bytes).length = recordsSize frames := by
  induction frames with
  | nil => rfl
  | cons frame later ih =>
      rw [List.flatMap_cons, List.length_append, length_bytes, ih, recordsSize_cons]

theorem recordsSize_append (frames others : List Frame) :
    recordsSize (frames ++ others) = recordsSize frames + recordsSize others := by
  rw [← length_records, ← length_records, ← length_records, List.flatMap_append,
    List.length_append]

theorem recordsSize_eq_zero_iff {frames : List Frame} : recordsSize frames = 0 ↔ frames = [] := by
  cases frames with
  | nil => simp
  | cons frame later => simp [size, headerSize]

theorem length_mapBytes (frames : List Frame) : (mapBytes frames).length = mapSize frames := by
  rw [mapBytes, List.length_append, List.length_append, LittleEndian.length_encode,
    LittleEndian.length_encode, length_records, mapSize_eq]
  rfl

end CompactOid.Frame
