import CompactOid.Proofs.PrefixMap.Canonical
import CompactOid.Proofs.Table.Growth

namespace CompactOid.Table

variable {table : Table} {entry : Entry}

theorem storable_of_start
    (start : table = .empty ∨ ∃ config data, (Table.ofMap config data).value = .ok table) :
    ∀ entry ∈ table.entries.toList, entry.Storable := by
  obtain rfl | ⟨config, data, loaded⟩ := start
  · simp [empty]
  · obtain ⟨entries, read, rfl⟩ := ofMap_eq_ok_iff.mp loaded
    have storable := PrefixMap.read_storable read
    exact fun entry member => storable entry ((ofEntries_sublist entries).subset member)

/-- A map that was read is written again without padding and without the bytes behind its records,
and so is the table of it, without the repetitions of codes.  Both are read back. -/
theorem read_maps_are_written_no_longer (config : Config) (data : Bytes) :
    (∀ entries, (PrefixMap.read config data).value = .ok entries →
      ∃ canonical declared frames rest, (PrefixMap.write entries).value = .ok canonical ∧
        canonical.length ≤ data.length ∧
        (PrefixMap.read .strict canonical).value = .ok entries ∧
        Frame.Cut data frames.length declared frames rest ∧
        (canonical = data ↔ rest = [] ∧ ∀ frame ∈ frames, Base128.Unpadded frame.body)) ∧
    (∀ table, (Table.ofMap config data).value = .ok table →
      ∃ map, table.toMap.value = .ok map ∧ map.length ≤ data.length ∧
        (PrefixMap.read .strict map).value = .ok table.entries.toList) := by
  refine ⟨fun entries read => ?_, fun table loaded => ?_⟩
  · obtain ⟨canonical, declared, frames, rest, written, bounded, cut, same⟩ :=
      PrefixMap.write_of_read read
    exact ⟨canonical, declared, frames, rest, written, bounded,
      PrefixMap.read_of_write .strict written, cut, same⟩
  · obtain ⟨entries, read, same⟩ := Logged.andThen_eq_ok_iff.mp loaded
    cases same
    obtain ⟨canonical, _, _, _, written, bounded, _⟩ := PrefixMap.write_of_read read
    obtain ⟨map, kept, shorter⟩ := PrefixMap.write_of_sublist (ofEntries_sublist entries) written
    exact ⟨map, kept, Nat.le_trans shorter bounded, PrefixMap.read_of_write .strict kept⟩

/-- A padded record, another one with its code, and a byte behind both. -/
theorem padded_map_is_written_no_longer :
    let data : Bytes :=
      [2, 0, 0, 0, 21, 0, 0, 0, 0, 0x70, 3, 0, 42, 0x80, 5, 0, 0x70, 2, 0, 42, 6, 0xff]
    let canonical : Bytes :=
      [2, 0, 0, 0, 20, 0, 0, 0, 0, 0x70, 2, 0, 42, 5, 0, 0x70, 2, 0, 42, 6]
    let map : Bytes := [1, 0, 0, 0, 14, 0, 0, 0, 0, 0x70, 2, 0, 42, 5]
    let entries : List Entry := [⟨0x7000, ⟨[1, 2, 5]⟩⟩, ⟨0x7000, ⟨[1, 2, 6]⟩⟩]
    (PrefixMap.read .lenient data).value = .ok entries ∧
      (PrefixMap.write entries).value = .ok canonical ∧
      (PrefixMap.read .strict canonical).value = .ok entries ∧
      ∃ table, (Table.ofMap .lenient data).value = .ok table ∧ table.toMap.value = .ok map ∧
        (PrefixMap.read .strict map).value = .ok table.entries.toList := by
  intro data canonical map entries
  have read : (PrefixMap.read .lenient data).value = .ok entries := by decide +kernel
  have shortened : (PrefixMap.write entries).value = .ok canonical := by decide +kernel
  have evaluated : (Table.ofMap .lenient data).value.map (fun table => table.toMap.value) =
      .ok (.ok map) := by decide +kernel
  obtain ⟨table, loaded, saved⟩ := map_eq_ok_iff.mp evaluated
  obtain ⟨rewritten, kept⟩ := read_maps_are_written_no_longer .lenient data
  obtain ⟨_, _, _, _, written, _, again, _⟩ := rewritten entries read
  obtain ⟨_, stored, _, reread⟩ := kept table loaded
  cases shortened.symm.trans written
  cases saved.symm.trans stored
  exact ⟨read, shortened, again, table, loaded, saved, reread⟩

/-- Edits put entries behind those that were there, and never one without a BER form. -/
theorem edit_appends (table : Table) (edits : List Edit) :
    ∃ added, (table.edit edits).entries.toList = table.entries.toList ++ added ∧
      ∀ entry ∈ added, ∃ body, entry.oid.toBer = .ok body := by
  refine edit_induction (motive := fun after => ∃ added,
    after.entries.toList = table.entries.toList ++ added ∧
      ∀ entry ∈ added, ∃ body, entry.oid.toBer = .ok body) edits ⟨[], by simp, by simp⟩ ?_
  intro after entry grown admitted
  obtain ⟨added, same, encodable⟩ := grown
  refine ⟨added ++ [entry], by rw [entries_push, same, List.append_assoc], ?_⟩
  exact List.forall_mem_append.mpr
    ⟨encodable, List.forall_mem_singleton.mpr admitted.encodable⟩

/-- As long as the map fits its length field, an edited table is written exactly if every entry
that the edits added has a body of at most 16 bits of length. -/
theorem toMap_succeeds_iff_added_bodies_short (table : Table)
    (start : table = .empty ∨ ∃ config data, (Table.ofMap config data).value = .ok table)
    (edits : List Edit)
    (fits : Frame.mapSize ((table.edit edits).entries.toList.map Frame.ofEntry) < UInt32.size) :
    (∃ map, (table.edit edits).toMap.value = .ok map) ↔
      ∀ entry ∈ (table.edit edits).entries.toList.drop table.size,
        (Frame.ofEntry entry).body.length < UInt16.size := by
  obtain ⟨added, grown, encodable⟩ := edit_appends table edits
  have behind : (table.edit edits).entries.toList.drop table.size = added := by
    rw [grown]
    exact List.drop_left
  have short : ∀ entry ∈ added,
      (entry.Storable ↔ (Frame.ofEntry entry).body.length < UInt16.size) := by
    intro entry member
    obtain ⟨body, encoded⟩ := encodable entry member
    exact Entry.storable_iff_of_toBer encoded
  simp only [toMap, PrefixMap.write_eq_ok_iff]
  rw [behind]
  refine ⟨fun written => ?_, fun bounded => ?_⟩
  · intro entry member
    obtain ⟨map, storable, _⟩ := written
    rw [← short entry member]
    exact storable entry (by rw [grown]; exact List.mem_append_right _ member)
  · refine ⟨_, ?_, fits, rfl⟩
    rw [grown]
    exact List.forall_mem_append.mpr ⟨storable_of_start start,
      fun entry member => (short entry member).mpr (bounded entry member)⟩

/-- The entry of a padded record and one that was assigned, behind two refused edits. -/
theorem toMap_succeeds_after_lenient_load :
    ∃ table, (Table.ofMap .lenient
        [1, 0, 0, 0, 15, 0, 0, 0, 0, 0x70, 3, 0, 42, 0x80, 5, 0xff]).value = .ok table ∧
      ∃ map, (table.edit [.insert ⟨0x7000, ⟨[1, 1]⟩⟩, .assign ⟨[]⟩, .assign ⟨[1, 2, 6]⟩]).toMap.value =
        .ok map := by
  have evaluated : (Table.ofMap .lenient
        [1, 0, 0, 0, 15, 0, 0, 0, 0, 0x70, 3, 0, 42, 0x80, 5, 0xff]).value.map
      (fun table => (table.size, (table.edit
        [.insert ⟨0x7000, ⟨[1, 1]⟩⟩, .assign ⟨[]⟩, .assign ⟨[1, 2, 6]⟩]).entries.toList)) =
      .ok (1, [⟨0x7000, ⟨[1, 2, 5]⟩⟩, ⟨39, ⟨[1, 2, 6]⟩⟩]) := by decide +kernel
  obtain ⟨table, loaded, same⟩ := map_eq_ok_iff.mp evaluated
  obtain ⟨size, entries⟩ := Prod.mk.inj same
  refine ⟨table, loaded, (toMap_succeeds_iff_added_bodies_short table (.inr ⟨_, _, loaded⟩) _ ?_).mpr ?_⟩
  · rw [entries]
    decide +kernel
  · rw [entries, size]
    decide +kernel

/-- One byte for the first two arcs and one for each zero behind them. -/
def zeros (count : Nat) : Oid :=
  ⟨1 :: 2 :: List.replicate count 0⟩

theorem toBer_zeros (count : Nat) : (zeros count).toBer = .ok (42 :: List.replicate count 0) := by
  have tail : (List.replicate count (0 : Arc)).flatMap (fun arc => Base128.encode arc.toNat) =
      List.replicate count 0 := by
    induction count with
    | zero => rfl
    | succ count ih =>
        rw [List.replicate_succ, List.flatMap_cons, ih, Base128.encode_of_small (by decide)]
        rfl
  simp only [zeros, Oid.toBer, tail]
  rw [show Oid.leadingValue 1 2 = .ok 42 from rfl]
  simp only [Base128.encode_of_small (show 42 < 128 by decide)]
  rfl

theorem ofEntry_zeros (code : Code) (count : Nat) :
    Frame.ofEntry ⟨code, zeros count⟩ = ⟨code, 42 :: List.replicate count 0⟩ :=
  Frame.ofEntry_of_toBer (toBer_zeros count)

theorem run_insert_zeros {code : Code} (count : Nat) (unreserved : Reserved.contains code = false) :
    Edit.run .empty (.insert ⟨code, zeros count⟩) =
      (.ok code, Table.empty.push ⟨code, zeros count⟩) := by
  have admitted : Table.empty.Admits ⟨code, zeros count⟩ :=
    ⟨unreserved, rfl, rfl, _, toBer_zeros count⟩
  exact run_insert_of_admits admitted

theorem mapSize_zeros (code : Code) (count : Nat) :
    Frame.mapSize ((Table.empty.push ⟨code, zeros count⟩).entries.toList.map Frame.ofEntry) =
      count + 13 := by
  rw [entries_push, List.map_append, List.map_singleton, ofEntry_zeros, Frame.mapSize_eq]
  simp [empty, Frame.size, Frame.mapHeaderSize, Frame.headerSize]
  omega

theorem count_lt_of_written_zeros {code : Code} {count : Nat} {map : Bytes}
    (written : (Table.empty.push ⟨code, zeros count⟩).toMap.value = .ok map) :
    count + 1 < UInt16.size := by
  have storable := (PrefixMap.write_eq_ok_iff.mp written).1 _ List.mem_cons_self
  have short := (Entry.storable_iff_of_toBer (toBer_zeros count)).mp storable
  rwa [ofEntry_zeros, List.length_cons, List.length_replicate] at short

/-- The BER form has 65536 bytes here, one more than a record can hold. -/
theorem long_oid_is_added_but_not_written :
    let change : Edit := .insert ⟨0x7000, zeros 65535⟩
    (change.run .empty).1 = .ok 0x7000 ∧
      Frame.mapSize ((Table.empty.edit [change]).entries.toList.map Frame.ofEntry) < UInt32.size ∧
      ¬ ∃ map, (Table.empty.edit [change]).toMap.value = .ok map := by
  intro change
  have accepted : change.run .empty = (.ok 0x7000, Table.empty.push ⟨0x7000, zeros 65535⟩) :=
    run_insert_zeros 65535 (by decide)
  have edited : Table.empty.edit [change] = (change.run .empty).2 := rfl
  rw [edited, accepted, mapSize_zeros]
  refine ⟨rfl, by decide, fun ⟨map, written⟩ => ?_⟩
  exact absurd (count_lt_of_written_zeros written) (by decide)

end CompactOid.Table
