import CompactOid.Bytes.Buffer
import CompactOid.Proofs.Bytes.Cursor
import CompactOid.Proofs.Bytes.Group
import CompactOid.Proofs.Outcome

namespace CompactOid

/-! How reads move the offset of a buffer.

A read of a buffer is that of a cursor which has forgotten the bytes in front of
the offset.  So a read that succeeds passes the bytes that it takes, and bytes put
in front of all others change nothing but the places that are told.
-/

theorem Cursor.group_eq_ok_iff {cursor after : Cursor} {value : Nat} :
    cursor.group = .ok (value, after) ↔
      ∃ group, Base128.Closed group ∧ Base128.valueOf group < UInt64.size ∧
        value = Base128.valueOf group ∧ Cursor.Passes group cursor after := by
  obtain ⟨position, rest⟩ := after
  simp only [Cursor.group, bind_eq_ok_iff, Base128.read_eq_ok_iff]
  constructor
  · intro found
    obtain ⟨reading, parts, same⟩ := found
    obtain ⟨group, closed, small, divided, number, size⟩ := parts
    cases same
    exact ⟨group, closed, small, number, divided, by rw [size]⟩
  · intro parts
    obtain ⟨group, closed, small, rfl, divided, rfl⟩ := parts
    exact ⟨⟨Base128.valueOf group, group.length, rest⟩,
      ⟨group, closed, small, divided, rfl, rfl⟩, rfl⟩

/-- What a fault tells of longer data, in which the same bytes are further on. -/
def Fault.shift (distance : Nat) : Fault → Fault
  | .malformedBer (.overflow offset) => .malformedBer (.overflow (distance + offset))
  | fault => fault

theorem Width.size_pos (width : Width) : 0 < width.size := by
  cases width <;> decide

namespace Buffer

variable {buffer before middle after : Buffer} {data taken front back : Bytes} {count value : Nat}
  {width : Width}

/-- The place in the bytes, without those in front of it. -/
def cursor (buffer : Buffer) : Cursor :=
  ⟨buffer.offset, buffer.rest⟩

theorem length_rest (buffer : Buffer) : buffer.rest.length = buffer.remaining :=
  List.length_drop

/-- What a read of the cursor answers, with the offset moved to the place of the cursor after it. -/
def follow {α : Type} (buffer : Buffer) : Option (α × Cursor) → Except Fault α × Buffer
  | some (value, next) => (.ok value, buffer.seek next.position)
  | none => (.error .outOfBounds, buffer)

theorem follow_eq_ok_iff {α : Type} {found : Option (α × Cursor)} {value : α} :
    buffer.follow found = (.ok value, after) ↔
      ∃ next, found = some (value, next) ∧ after = buffer.seek next.position := by
  cases found with
  | none => simp [follow]
  | some found => simp [follow, Prod.ext_iff, and_assoc, eq_comm]

theorem take_eq_cursor (buffer : Buffer) (count : Nat) :
    buffer.take count = buffer.follow (buffer.cursor.take? count) := by
  have length : (buffer.rest.take count).length = count ↔ ¬ buffer.remaining < count := by
    rw [List.length_take, length_rest]
    omega
  simp only [take, cursor, Cursor.take?, length]
  by_cases few : buffer.remaining < count
  · rw [if_pos few, if_neg (not_not_intro few), follow]
  · rw [if_neg few, if_pos few, follow]

/-- A number has at least one byte, so an offset behind the end makes no difference. -/
theorem read_eq_cursor (buffer : Buffer) (width : Width) :
    buffer.read width = buffer.follow (buffer.cursor.word? width) := by
  have positive := width.size_pos
  have room : buffer.holds width.size = true ↔ (buffer.rest.take width.size).length = width.size := by
    rw [List.length_take, length_rest]
    simp only [holds, remaining, decide_eq_true_iff]
    omega
  by_cases enough : (buffer.rest.take width.size).length = width.size
  · have located : buffer.cursor.take? width.size = some (buffer.rest.take width.size,
        ⟨buffer.offset + width.size, buffer.rest.drop width.size⟩) := if_pos enough
    rw [read, if_pos (room.mpr enough), Cursor.word?, located]
    rfl
  · have located : buffer.cursor.take? width.size = none := if_neg enough
    rw [read, if_neg (mt room.mp enough), Cursor.word?, located]
    rfl

theorem group_eq_cursor (buffer : Buffer) :
    buffer.group = match buffer.cursor.group with
      | .ok (value, next) => (.ok value, buffer.seek next.position)
      | .error .cutOff => (.error .outOfBounds, buffer)
      | .error .overflow => (.error (.malformedBer (.overflow buffer.offset)), buffer) := by
  simp only [group, cursor, Cursor.group]
  cases Base128.read buffer.rest with
  | ok reading => rfl
  | error flaw => cases flaw <;> rfl

/-- The offset moves over these bytes. -/
structure Passes (taken : Bytes) (before after : Buffer) : Prop where
  bytes_eq : after.bytes = before.bytes
  divided : before.rest = taken ++ after.rest
  moved : after.offset = before.offset + taken.length

theorem passes_iff_cursor :
    Passes taken before after ↔
      ∃ next, Cursor.Passes taken before.cursor next ∧ after = before.seek next.position := by
  obtain ⟨bytes, offset⟩ := after
  constructor
  · intro passed
    obtain ⟨rfl, divided, moved⟩ := passed
    exact ⟨⟨offset, _⟩, ⟨divided, moved⟩, rfl⟩
  · intro found
    obtain ⟨next, passed, same⟩ := found
    cases same
    have divided : before.rest = taken ++ next.rest := passed.divided
    have moved : next.position = before.offset + taken.length := passed.moved
    refine ⟨rfl, ?_, moved⟩
    have behind : before.bytes.drop next.position = next.rest := by
      rw [moved, ← List.drop_drop]
      exact (congrArg (List.drop taken.length) divided).trans List.drop_left
    rw [divided, ← behind]
    rfl

theorem passes_of_rest {rest : Bytes} (divided : before.rest = taken ++ rest) :
    Passes taken before (before.seek (before.offset + taken.length)) :=
  passes_iff_cursor.mpr ⟨⟨_, rest⟩, ⟨divided, rfl⟩, rfl⟩

theorem take_eq_ok_iff :
    buffer.take count = (.ok taken, after) ↔ taken.length = count ∧ Passes taken buffer after := by
  simp only [take_eq_cursor, follow_eq_ok_iff, Cursor.take?_eq_some_iff, passes_iff_cursor]
  constructor
  · intro read
    obtain ⟨next, ⟨rfl, divided, moved⟩, same⟩ := read
    exact ⟨rfl, next, ⟨divided, moved⟩, same⟩
  · intro parts
    obtain ⟨rfl, next, ⟨divided, moved⟩, same⟩ := parts
    exact ⟨next, ⟨rfl, divided, moved⟩, same⟩

theorem read_eq_ok_iff :
    buffer.read width = (.ok value, after) ↔
      value < LittleEndian.capacity width.size ∧
        Passes (LittleEndian.encode width.size value) buffer after := by
  have size := LittleEndian.length_encode width.size value
  simp only [read_eq_cursor, follow_eq_ok_iff, Cursor.word?_eq_some_iff, passes_iff_cursor]
  constructor
  · intro read
    obtain ⟨next, ⟨small, divided, moved⟩, same⟩ := read
    rw [← size] at moved
    exact ⟨small, next, ⟨divided, moved⟩, same⟩
  · intro parts
    obtain ⟨small, next, ⟨divided, moved⟩, same⟩ := parts
    rw [size] at moved
    exact ⟨next, ⟨small, divided, moved⟩, same⟩

theorem group_eq_ok_iff :
    buffer.group = (.ok value, after) ↔
      ∃ group, Base128.Closed group ∧ Base128.valueOf group < UInt64.size ∧
        value = Base128.valueOf group ∧ Passes group buffer after := by
  simp only [group_eq_cursor, passes_iff_cursor]
  constructor
  · intro read
    split at read
    · rename_i number next located
      cases read
      obtain ⟨group, closed, small, same, passed⟩ := Cursor.group_eq_ok_iff.mp located
      exact ⟨group, closed, small, same, next, passed, rfl⟩
    all_goals cases read
  · intro parts
    obtain ⟨group, closed, small, same, next, passed, rfl⟩ := parts
    rw [Cursor.group_eq_ok_iff.mpr ⟨group, closed, small, same, passed⟩]

theorem passes_nil_iff : Passes [] before after ↔ after = before := by
  simp only [passes_iff_cursor, Cursor.passes_nil_iff, exists_eq_left]
  rfl

theorem passes_append_iff :
    Passes (front ++ back) before after ↔
      ∃ middle, Passes front before middle ∧ Passes back middle after := by
  constructor
  · intro passed
    have divided : before.rest = front ++ (back ++ after.rest) := by
      rw [passed.divided, List.append_assoc]
    have first := passes_of_rest divided
    refine ⟨_, first, passed.bytes_eq, ?_, ?_⟩
    · exact List.append_cancel_left (first.divided.symm.trans divided)
    · rw [passed.moved, List.length_append, ← Nat.add_assoc]
      rfl
  · intro parts
    obtain ⟨middle, first, second⟩ := parts
    refine ⟨second.bytes_eq.trans first.bytes_eq, ?_, ?_⟩
    · rw [first.divided, second.divided, List.append_assoc]
    · rw [second.moved, first.moved, List.length_append, Nat.add_assoc]

/-- The offset moves over some of the bytes in front of it, or not at all. -/
def Advances (before after : Buffer) : Prop :=
  ∃ taken, Passes taken before after

theorem Advances.refl (buffer : Buffer) : Advances buffer buffer :=
  ⟨[], passes_nil_iff.mpr rfl⟩

theorem Advances.trans (first : Advances before middle) (second : Advances middle after) :
    Advances before after := by
  obtain ⟨front, left⟩ := first
  obtain ⟨back, right⟩ := second
  exact ⟨front ++ back, passes_append_iff.mpr ⟨middle, left, right⟩⟩

/-- Putting the offset back is all that it takes, since reads leave the bytes alone. -/
theorem Advances.seek_eq (ahead : Advances before after) : after.seek before.offset = before := by
  obtain ⟨_, passed⟩ := ahead
  rw [seek, passed.bytes_eq]

/-- The buffer has these bytes, and its offset does not stand behind their end. -/
structure Within (data : Bytes) (buffer : Buffer) : Prop where
  bytes_eq : buffer.bytes = data
  offset_le : buffer.offset ≤ data.length

theorem within_ofBytes (data : Bytes) : Within data (ofBytes data) :=
  ⟨rfl, Nat.zero_le _⟩

theorem Within.advances (within : Within data before) (ahead : Advances before after) :
    Within data after := by
  obtain ⟨rfl, start⟩ := within
  obtain ⟨taken, passed⟩ := ahead
  have length := congrArg List.length passed.divided
  rw [length_rest, List.length_append, remaining] at length
  refine ⟨passed.bytes_eq, ?_⟩
  rw [passed.moved]
  omega

theorem Within.passes_iff (within : Within data before) :
    Passes taken before after ↔
      data.drop before.offset = taken ++ data.drop after.offset ∧
        after = ⟨data, before.offset + taken.length⟩ := by
  obtain ⟨rfl, _⟩ := within
  obtain ⟨bytes, offset⟩ := after
  constructor
  · intro passed
    obtain ⟨rfl, divided, moved⟩ := passed
    exact ⟨divided, congrArg (Buffer.mk _) moved⟩
  · intro parts
    obtain ⟨divided, same⟩ := parts
    cases same
    exact ⟨rfl, divided, rfl⟩

/-- The same place behind more bytes. -/
def behind (front : Bytes) (buffer : Buffer) : Buffer :=
  ⟨front ++ buffer.bytes, front.length + buffer.offset⟩

theorem rest_behind (front : Bytes) (buffer : Buffer) :
    (buffer.behind front).rest = buffer.rest := by
  rw [rest, behind, List.drop_length_add_append]
  rfl

/-- The bytes of a buffer are those in front of the offset and those from there on. -/
theorem Within.behind_eq (within : Within data buffer) :
    (ofBytes (data.drop buffer.offset)).behind (data.take buffer.offset) = buffer := by
  obtain ⟨rfl, start⟩ := within
  simp only [behind, ofBytes, List.take_append_drop, List.length_take_of_le start, Nat.add_zero]

theorem remaining_behind (front : Bytes) (buffer : Buffer) :
    (buffer.behind front).remaining = buffer.remaining := by
  rw [← length_rest, rest_behind, length_rest]

theorem seek_behind (front : Bytes) (buffer : Buffer) (count : Nat) :
    (buffer.behind front).seek ((buffer.behind front).offset + count) =
      (buffer.seek (buffer.offset + count)).behind front := by
  simp only [behind, seek, Nat.add_assoc]

theorem take_behind (front : Bytes) (buffer : Buffer) (count : Nat) :
    (buffer.behind front).take count =
      ((buffer.take count).1.mapError (Fault.shift front.length),
        (buffer.take count).2.behind front) := by
  simp only [take, remaining_behind, rest_behind, seek_behind]
  split <;> rfl

theorem read_behind (front : Bytes) (buffer : Buffer) (width : Width) :
    (buffer.behind front).read width =
      ((buffer.read width).1.mapError (Fault.shift front.length),
        (buffer.read width).2.behind front) := by
  have room : (buffer.behind front).holds width.size = buffer.holds width.size := by
    simp only [holds, behind, List.length_append, Nat.add_assoc, Nat.add_le_add_iff_left]
  simp only [read, room, rest_behind, seek_behind]
  split <;> rfl

theorem group_behind (front : Bytes) (buffer : Buffer) :
    (buffer.behind front).group =
      (buffer.group.1.mapError (Fault.shift front.length), buffer.group.2.behind front) := by
  simp only [group, rest_behind, seek_behind]
  cases Base128.read buffer.rest with
  | ok reading => rfl
  | error flaw => cases flaw <;> rfl

end Buffer

end CompactOid
