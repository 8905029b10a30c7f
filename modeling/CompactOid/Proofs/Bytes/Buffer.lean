import CompactOid.Bytes.Buffer
import CompactOid.Proofs.Bytes.LittleEndian

namespace CompactOid.Buffer

variable {buffer after : Buffer} {written : Bytes} {size value : Nat} {width : Width}
  {fault : Fault}

theorem holds_iff : buffer.holds size = true ↔ buffer.offset + size ≤ buffer.bytes.length :=
  decide_eq_true_iff

theorem checkedAdd?_eq_some_iff {left right sum : UInt64} :
    checkedAdd? left right = some sum ↔ sum.toNat = left.toNat + right.toNat := by
  have low := left.toNat_lt
  have high := right.toNat_lt
  have fits := sum.toNat_lt
  simp only [checkedAdd?, Option.ite_none_left_eq_some, UInt64.lt_iff_toNat_lt, Option.some.injEq,
    ← UInt64.toNat_inj, UInt64.toNat_add]
  omega

/-- Machine words tell the bounds of numbers, also where their sum would wrap around. -/
theorem inBounds_iff {length offset size : UInt64} :
    inBounds length offset size = true ↔ offset.toNat + size.toNat ≤ length.toNat := by
  rw [inBounds]
  split
  · rename_i stop sum
    rw [decide_eq_true_iff, UInt64.le_iff_toNat_le, checkedAdd?_eq_some_iff.mp sum]
  · rename_i none
    have bound := length.toNat_lt
    refine iff_of_false Bool.false_ne_true fun room => ?_
    have sum : checkedAdd? offset size = some (UInt64.ofNat (offset.toNat + size.toNat)) := by
      rw [checkedAdd?_eq_some_iff]
      exact UInt64.toNat_ofNat_of_lt' (Nat.lt_of_le_of_lt room bound)
    rw [none] at sum
    cases sum

theorem holds_iff_divided :
    buffer.holds size = true ↔
      ∃ before window behind, buffer.bytes = before ++ (window ++ behind) ∧
        before.length = buffer.offset ∧ window.length = size := by
  rw [holds_iff]
  constructor
  · intro room
    have front : (buffer.bytes.take buffer.offset).length = buffer.offset := by
      rw [List.length_take]
      omega
    have covered : ((buffer.bytes.drop buffer.offset).take size).length = size := by
      rw [List.length_take, List.length_drop]
      omega
    have divided : buffer.bytes = buffer.bytes.take buffer.offset ++
        ((buffer.bytes.drop buffer.offset).take size ++
          buffer.bytes.drop (buffer.offset + size)) := by
      rw [← List.drop_drop, List.take_append_drop, List.take_append_drop]
    exact ⟨_, _, _, divided, front, covered⟩
  · intro divided
    obtain ⟨before, window, behind, bytes, front, covered⟩ := divided
    rw [bytes, List.length_append, List.length_append]
    omega

theorem read_eq_error_iff :
    buffer.read width = (.error fault, after) ↔
      fault = .outOfBounds ∧ after = buffer ∧
        buffer.bytes.length < buffer.offset + width.size := by
  rw [read, ← Nat.not_le, ← holds_iff]
  split
  · rename_i room
    simp [room]
  · rename_i short
    simp [short, eq_comm]

theorem writeBytes_eq_ok_iff :
    buffer.writeBytes written = (.ok (), after) ↔
      ∃ before replaced behind, buffer.bytes = before ++ (replaced ++ behind) ∧
        before.length = buffer.offset ∧ replaced.length = written.length ∧
        after = ⟨before ++ written ++ behind, buffer.offset + written.length⟩ := by
  have patched : ∀ before replaced behind, buffer.bytes = before ++ (replaced ++ behind) →
      before.length = buffer.offset → replaced.length = written.length →
      buffer.bytes.take buffer.offset ++ written ++
        buffer.bytes.drop (buffer.offset + written.length) = before ++ written ++ behind := by
    intro before replaced behind bytes front covered
    rw [bytes, ← front, ← covered, List.take_left, ← List.drop_drop, List.drop_left,
      List.drop_left]
  constructor
  · intro result
    rw [writeBytes] at result
    split at result
    · rename_i room
      obtain ⟨before, replaced, behind, bytes, front, covered⟩ := holds_iff_divided.mp room
      cases result
      rw [patched before replaced behind bytes front covered]
      exact ⟨before, replaced, behind, bytes, front, covered, rfl⟩
    · cases result
  · intro divided
    obtain ⟨before, replaced, behind, bytes, front, covered, rfl⟩ := divided
    have room : buffer.holds written.length = true :=
      holds_iff_divided.mpr ⟨before, replaced, behind, bytes, front, covered⟩
    rw [writeBytes, if_pos room, patched before replaced behind bytes front covered]

theorem writeBytes_eq_error_iff :
    buffer.writeBytes written = (.error fault, after) ↔
      fault = .outOfBounds ∧ after = buffer ∧
        buffer.bytes.length < buffer.offset + written.length := by
  rw [writeBytes, ← Nat.not_le, ← holds_iff]
  split
  · rename_i room
    simp [room]
  · rename_i short
    simp [short, eq_comm]

/-- A blank buffer that was filled up to its offset, with room for some more bytes. -/
def filled (written : Bytes) (room : Nat) : Buffer :=
  ⟨written ++ List.replicate room 0, written.length⟩

theorem writeBytes_filled (front written : Bytes) (room : Nat) :
    (filled front (written.length + room)).writeBytes written =
      (.ok (), filled (front ++ written) room) := by
  rw [writeBytes_eq_ok_iff]
  refine ⟨front, List.replicate written.length 0, List.replicate room 0, ?_, rfl,
    List.length_replicate, ?_⟩
  · rw [filled, List.replicate_append_replicate]
  · rw [filled, filled, List.length_append]

theorem write_filled (front : Bytes) (width : Width) (value room : Nat) :
    (filled front (width.size + room)).write width value =
      (.ok (), filled (front ++ LittleEndian.encode width.size value) room) := by
  have written := writeBytes_filled front (LittleEndian.encode width.size value) room
  rwa [LittleEndian.length_encode] at written

theorem filled_full (written : Bytes) : filled written 0 = ⟨written, written.length⟩ := by
  rw [filled, List.replicate_zero, List.append_nil]

end CompactOid.Buffer
