import CompactOid.Proofs.PrefixMap.Reading

namespace CompactOid

namespace Frame

variable {data : Bytes} {frame : Frame} {frames : List Frame} {entry : Entry} {entries : List Entry}

theorem holds_ofEntry (storable : entry.Storable) : (ofEntry entry).Holds entry := by
  obtain ⟨body, encoded, _⟩ := storable
  rw [ofEntry_of_toBer encoded]
  exact ⟨rfl, Oid.ofBer_of_toBer encoded⟩

theorem forall₂_holds_ofEntry (storable : ∀ entry ∈ entries, entry.Storable) :
    List.Forall₂ Holds (entries.map ofEntry) entries := by
  rw [List.forall₂_map_left_iff, List.forall₂_same]
  exact fun entry member => holds_ofEntry (storable entry member)

theorem ofEntry_of_holds (holds : frame.Holds entry) :
    (ofEntry entry).size ≤ frame.size ∧
      (ofEntry entry = frame ↔ Base128.Unpadded frame.body) := by
  obtain ⟨code, body⟩ := frame
  obtain ⟨rfl, decoded⟩ := holds
  obtain ⟨canonical, encoded, bounded, same⟩ := Oid.toBer_of_ofBer decoded
  rw [ofEntry_of_toBer encoded]
  exact ⟨Nat.add_le_add_left bounded headerSize, by simpa using same⟩

theorem ofEntries_of_holds (holds : List.Forall₂ Holds frames entries) :
    recordsSize (entries.map ofEntry) ≤ recordsSize frames ∧
      (entries.map ofEntry = frames ↔ ∀ frame ∈ frames, Base128.Unpadded frame.body) := by
  induction holds with
  | nil => simp
  | cons first others ih =>
      obtain ⟨smaller, same⟩ := ofEntry_of_holds first
      refine ⟨Nat.add_le_add smaller ih.1, ?_⟩
      rw [List.map_cons, List.cons.injEq, same, ih.2, List.forall_mem_cons]

theorem cut_mapBytes (fits : mapSize frames < UInt32.size)
    (short : ∀ frame ∈ frames, frame.body.length < UInt16.size) (rest : Bytes) :
    Cut (mapBytes frames ++ rest) frames.length (mapSize frames) frames rest where
  count_lt := Nat.lt_trans (length_lt_mapSize frames) fits
  declared_lt := fits
  divided := by rw [mapBytes, List.append_assoc]
  bodies_lt := short

end Frame

namespace PrefixMap

variable {config : Config} {data map : Bytes} {entries : List Entry}

theorem cut_of_write (written : (write entries).value = .ok map) :
    Frame.Cut map (entries.map Frame.ofEntry).length (Frame.mapSize (entries.map Frame.ofEntry))
        (entries.map Frame.ofEntry) [] ∧
      map.length = Frame.mapSize (entries.map Frame.ofEntry) := by
  obtain ⟨storable, fits, rfl⟩ := write_eq_ok_iff.mp written
  have short : ∀ frame ∈ entries.map Frame.ofEntry, frame.body.length < UInt16.size := by
    intro frame member
    obtain ⟨entry, present, rfl⟩ := List.mem_map.mp member
    obtain ⟨body, encoded, small⟩ := storable entry present
    rwa [Frame.ofEntry_of_toBer encoded]
  have cut := Frame.cut_mapBytes fits short []
  rw [List.append_nil] at cut
  exact ⟨cut, Frame.length_mapBytes _⟩

theorem read_of_write (config : Config) (written : (write entries).value = .ok map) :
    (read config map).value = .ok entries := by
  obtain ⟨cut, length⟩ := cut_of_write written
  obtain ⟨storable, _, _⟩ := write_eq_ok_iff.mp written
  exact read_of_verdict (.accepted cut ⟨rfl, .inl length.symm⟩
    (Frame.forall₂_holds_ofEntry storable))

/-- A map tells its entries, their order and repetitions included, so no two lists share one. -/
theorem entries_read_back_from_their_map {entries : List Entry} {map : Bytes}
    (written : (write entries).value = .ok map) :
    (∀ config, (read config map).value = .ok entries) ∧
      ∀ others, (write others).value = .ok map → others = entries := by
  refine ⟨fun config => read_of_write config written, fun others again => ?_⟩
  have same := (read_of_write .strict again).symm.trans (read_of_write .strict written)
  exact Except.ok.inj same

/-- A code and an identifier are repeated, and arcs take up one, two and five bytes. -/
theorem repeated_entries_read_back :
    let entries : List Entry :=
      [⟨0x7000, ⟨[1, 2, 127]⟩⟩, ⟨0x7000, ⟨[2, 4294967295, 128]⟩⟩, ⟨8, ⟨[1, 2, 127]⟩⟩]
    let map : Bytes :=
      [3, 0, 0, 0, 31, 0, 0, 0, 0, 0x70, 2, 0, 42, 127,
        0, 0x70, 7, 0, 0x90, 0x80, 0x80, 0x80, 79, 0x81, 0, 8, 0, 2, 0, 42, 127]
    (write entries).value = .ok map ∧ (read .lenient map).value = .ok entries := by
  intro entries map
  have written : (write entries).value = .ok map := by decide +kernel
  exact ⟨written, (entries_read_back_from_their_map written).1 .lenient⟩

/-- What was read is written again without padding and without the bytes behind the records. -/
theorem write_of_read (read : (read config data).value = .ok entries) :
    ∃ canonical declared frames rest, (write entries).value = .ok canonical ∧
      canonical.length ≤ data.length ∧ Frame.Cut data frames.length declared frames rest ∧
      (canonical = data ↔ rest = [] ∧ ∀ frame ∈ frames, Base128.Unpadded frame.body) := by
  cases verdict_of_read read with
  | @accepted declared frames rest _ cut agree holds =>
      obtain ⟨smaller, same⟩ := Frame.ofEntries_of_holds holds
      have spanned : Frame.mapSize (entries.map Frame.ofEntry) ≤ Frame.mapSize frames := by
        rw [Frame.mapSize_eq, Frame.mapSize_eq]
        exact Nat.add_le_add_left smaller Frame.mapHeaderSize
      have fits : Frame.mapSize frames < UInt32.size := by
        rw [agree.1]
        exact cut.declared_lt
      have written : (write entries).value = .ok (Frame.mapBytes (entries.map Frame.ofEntry)) :=
        write_eq_ok_iff.mpr ⟨storable_of_cut cut holds, Nat.lt_of_le_of_lt spanned fits, rfl⟩
      refine ⟨_, declared, frames, rest, written, ?_, cut, fun whole => ?_, fun canonical => ?_⟩
      · rw [Frame.length_mapBytes, cut.length_eq]
        exact Nat.le_trans spanned (Nat.le_add_right _ _)
      · have again := (cut_of_write written).1
        rw [whole] at again
        obtain ⟨frames_eq, rest_eq⟩ := cut.unique again
        exact ⟨rest_eq, same.mp frames_eq.symm⟩
      · obtain ⟨rfl, unpadded⟩ := canonical
        rw [same.mpr unpadded, cut.divided, Frame.mapBytes, agree.1, List.append_nil]

end PrefixMap

end CompactOid
