import CompactOid.Proofs.PrefixMap.Canonical

namespace CompactOid

/-! Damage to a map that is always noticed.

The records of a map begin at a fixed place, and those bytes, with either number
of the header, leave no choice for the other number: the count tells which bytes
are records, and so does the size that they span.
-/

namespace Frame

variable {data other rest behind : Bytes} {frames others : List Frame}
  {count declared stated : Nat}

theorem Lead.take (lead : Lead frames rest data) (count : Nat) :
    Lead (frames.take count) ((frames.drop count).flatMap bytes ++ rest) data where
  divided := by
    rw [← List.append_assoc, ← List.flatMap_append, List.take_append_drop]
    exact lead.divided
  bodies_lt frame member := lead.bodies_lt frame (List.mem_of_mem_take member)

theorem Lead.isPrefix (lead : Lead frames rest data) (again : Lead others behind data)
    (fewer : frames.length ≤ others.length) : frames <+: others := by
  have count : frames.length = (others.take frames.length).length := by
    rw [List.length_take, Nat.min_eq_left fewer]
  obtain ⟨same, _⟩ := lead.unique (again.take frames.length) count
  rw [same]
  exact List.take_prefix _ _

/-- Every record takes up some bytes, so the size that records span tells which they are. -/
theorem Lead.eq_of_recordsSize (lead : Lead frames rest data) (again : Lead others behind data)
    (same : recordsSize frames = recordsSize others) : frames = others := by
  rcases Nat.le_total frames.length others.length with fewer | fewer
  · obtain ⟨later, rfl⟩ := lead.isPrefix again fewer
    rw [recordsSize_append, Nat.left_eq_add, recordsSize_eq_zero_iff] at same
    rw [same, List.append_nil]
  · obtain ⟨later, rfl⟩ := again.isPrefix lead fewer
    rw [recordsSize_append, Nat.add_eq_left, recordsSize_eq_zero_iff] at same
    rw [same, List.append_nil]

theorem Cut.append (cut : Cut data count declared frames rest) (more : Bytes) :
    Cut (data ++ more) count declared frames (rest ++ more) :=
  { cut with divided := by rw [cut.divided]; simp only [List.append_assoc] }

theorem Cut.take_count (cut : Cut data count declared frames rest) :
    data.take 4 = LittleEndian.encode 4 count := by
  rw [cut.divided, List.append_assoc]
  exact List.take_left' (LittleEndian.length_encode 4 count)

theorem Cut.take_declared (cut : Cut data count declared frames rest) :
    (data.drop 4).take 4 = LittleEndian.encode 4 declared := by
  rw [cut.divided, List.append_assoc, List.drop_left' (LittleEndian.length_encode 4 count)]
  exact List.take_left' (LittleEndian.length_encode 4 declared)

theorem Cut.lead (cut : Cut data count declared frames rest) :
    Lead frames rest (data.drop mapHeaderSize) where
  divided := by
    rw [cut.divided]
    exact List.drop_left' (by simp [mapHeaderSize])
  bodies_lt := cut.bodies_lt

theorem Cut.count_eq {number : Nat} (cut : Cut data count declared frames rest)
    (again : Cut other number stated others behind) (same : data.take 4 = other.take 4) :
    count = number := by
  rw [cut.take_count, again.take_count] at same
  exact LittleEndian.encode_inj same cut.count_lt again.count_lt

theorem Cut.declared_eq {number : Nat} (cut : Cut data count declared frames rest)
    (again : Cut other number stated others behind)
    (same : (data.drop 4).take 4 = (other.drop 4).take 4) : declared = stated := by
  rw [cut.take_declared, again.take_declared] at same
  exact LittleEndian.encode_inj same cut.declared_lt again.declared_lt

/-- Maps are the same if they count and declare the same and have the same bytes behind that. -/
theorem Cut.eq_of_header (cut : Cut data count declared frames rest)
    (again : Cut other count declared others behind)
    (same : data.drop mapHeaderSize = other.drop mapHeaderSize) : data = other := by
  have halves : ∀ bytes : Bytes,
      bytes = bytes.take 4 ++ ((bytes.drop 4).take 4 ++ bytes.drop mapHeaderSize) := by
    intro bytes
    rw [mapHeaderSize, show 8 = 4 + 4 from rfl, ← List.drop_drop, List.take_append_drop,
      List.take_append_drop]
  rw [halves data, halves other, cut.take_count, again.take_count, cut.take_declared,
    again.take_declared, same]

end Frame

namespace PrefixMap

variable {config : Config} {data other map kept : Bytes} {entries found : List Entry}

theorem cut_of_read (accepted : (read config data).value = .ok entries) :
    ∃ frames rest, Frame.Cut data frames.length (Frame.mapSize frames) frames rest ∧
      Frame.Agree config (Frame.mapSize frames) (Frame.mapSize frames) data.length := by
  cases verdict_of_read accepted with
  | @accepted declared frames rest _ cut agree _ =>
      have spanned : Frame.mapSize frames = declared := agree.1
      subst spanned
      exact ⟨frames, rest, cut, agree⟩

/-- A map that is read under the strict config ends with its last record. -/
theorem cut_of_read_strict (accepted : (read .strict map).value = .ok entries) :
    ∃ frames, Frame.Cut map frames.length map.length frames [] ∧
      Frame.mapSize frames = map.length := by
  obtain ⟨frames, framed⟩ := ofMap_of_ofRecords accepted (.entries entries)
  have cut := Frame.ofMap_strict_eq_ok_iff.mp framed
  exact ⟨frames, cut, by simpa using cut.length_eq.symm⟩

theorem truncated_of_isPrefix (accepted : (read .strict map).value = .ok entries)
    (front : kept <+: map) (shorter : kept ≠ map) (config : Config) :
    ∃ truncation, (read config kept).value = .error (.truncatedMap truncation) := by
  obtain ⟨frames, cut, _⟩ := cut_of_read_strict accepted
  obtain ⟨lost, rfl⟩ := front
  rcases Frame.cut_or_truncated kept with ⟨declared, others, rest, again⟩ | ⟨truncation, truncated⟩
  · obtain ⟨_, ends⟩ := cut.unique (again.append lost)
    obtain ⟨_, rfl⟩ := List.append_eq_nil_iff.mp ends.symm
    rw [List.append_nil] at shorter
    contradiction
  · exact ⟨truncation, read_of_verdict (.truncated truncated)⟩

theorem mismatched_of_append (accepted : (read .strict map).value = .ok entries) {extra : Bytes}
    (more : extra ≠ []) :
    (read .strict (map ++ extra)).value =
      .error (.lengthMismatch map.length map.length (map.length + extra.length)) := by
  obtain ⟨frames, cut, whole⟩ := cut_of_read_strict accepted
  have positive := List.length_pos_iff.mpr more
  have disagree : ¬ Frame.Agree .strict map.length (Frame.mapSize frames)
      (map ++ extra).length := by
    rintro ⟨_, ends | ⟨lenient, _⟩⟩
    · rw [whole, List.length_append] at ends
      omega
    · contradiction
  rw [read_of_verdict (.mismatched (cut.append extra) disagree), whole, List.length_append]

theorem eq_of_same_count (accepted : (read config data).value = .ok entries)
    (again : (read config other).value = .ok found) (count : data.take 4 = other.take 4)
    (records : data.drop Frame.mapHeaderSize = other.drop Frame.mapHeaderSize) :
    data = other := by
  obtain ⟨frames, rest, cut, _⟩ := cut_of_read accepted
  obtain ⟨others, behind, cut', _⟩ := cut_of_read again
  have lead := cut.lead
  rw [records] at lead
  obtain ⟨rfl, _⟩ := lead.unique cut'.lead (cut.count_eq cut' count)
  exact cut.eq_of_header cut' records

theorem eq_of_same_size {frames others : List Frame} {rest behind : Bytes}
    (cut : Frame.Cut data frames.length (Frame.mapSize frames) frames rest)
    (again : Frame.Cut other others.length (Frame.mapSize others) others behind)
    (size : Frame.mapSize frames = Frame.mapSize others)
    (records : data.drop Frame.mapHeaderSize = other.drop Frame.mapHeaderSize) :
    data = other := by
  have lead := cut.lead
  rw [records] at lead
  rw [Frame.mapSize_eq, Frame.mapSize_eq] at size
  obtain rfl := lead.eq_of_recordsSize again.lead (Nat.add_left_cancel size)
  exact cut.eq_of_header again records

theorem eq_of_same_declared (accepted : (read config data).value = .ok entries)
    (again : (read config other).value = .ok found) (behind : data.drop 4 = other.drop 4) :
    data = other := by
  obtain ⟨frames, rest, cut, _⟩ := cut_of_read accepted
  obtain ⟨others, _, cut', _⟩ := cut_of_read again
  have size := cut.declared_eq cut' (congrArg (List.take 4) behind)
  have records := congrArg (List.drop 4) behind
  rw [List.drop_drop, List.drop_drop] at records
  exact eq_of_same_size cut cut' size records

theorem eq_of_same_length (accepted : (read .strict data).value = .ok entries)
    (again : (read .strict other).value = .ok found) (length : data.length = other.length)
    (records : data.drop Frame.mapHeaderSize = other.drop Frame.mapHeaderSize) :
    data = other := by
  obtain ⟨frames, cut, whole⟩ := cut_of_read_strict accepted
  obtain ⟨others, cut', whole'⟩ := cut_of_read_strict again
  rw [← whole] at cut
  rw [← whole'] at cut'
  exact eq_of_same_size cut cut' (by rw [whole, whole', length]) records

theorem refused_of_not_read (unread : ∀ found, (read config data).value ≠ .ok found) :
    ∃ fault, (read config data).value = .error fault := by
  cases outcome : (read config data).value with
  | error fault => exact ⟨fault, rfl⟩
  | ok found => exact absurd outcome (unread found)

theorem header_le_length (accepted : (read config data).value = .ok entries) :
    Frame.mapHeaderSize ≤ data.length := by
  obtain ⟨frames, rest, cut, _⟩ := cut_of_read accepted
  rw [cut.length_eq, Frame.mapSize_eq, Nat.add_assoc]
  exact Nat.le_add_right _ _

theorem refused_of_other_header (accepted : (read .strict map).value = .ok entries)
    {header : Bytes} (size : header.length = 8) (changed : header ≠ map.take 8) :
    ∃ fault, (read .strict (header ++ map.drop 8)).value = .error fault := by
  have room := header_le_length accepted
  have records : map.drop 8 = (header ++ map.drop 8).drop 8 := (List.drop_left' size).symm
  have length : map.length = (header ++ map.drop 8).length := by
    rw [List.length_append, List.length_drop, size]
    exact (Nat.add_sub_cancel' room).symm
  apply refused_of_not_read
  intro found again
  apply changed
  rw [eq_of_same_length accepted again length records, List.take_left' size]

theorem refused_of_other_count (accepted : (read config data).value = .ok entries)
    {field : Bytes} (size : field.length = 4) (changed : field ≠ data.take 4) :
    ∃ fault, (read config (field ++ data.drop 4)).value = .error fault := by
  have behind : data.drop 4 = (field ++ data.drop 4).drop 4 := (List.drop_left' size).symm
  apply refused_of_not_read
  intro found again
  apply changed
  rw [eq_of_same_declared accepted again behind, List.take_left' size]

theorem refused_of_other_declared (accepted : (read config data).value = .ok entries)
    {field : Bytes} (size : field.length = 4) (changed : field ≠ (data.drop 4).take 4) :
    ∃ fault, (read config (data.take 4 ++ field ++ data.drop 8)).value = .error fault := by
  have room := header_le_length accepted
  have front : (data.take 4).length = 4 := by
    rw [List.length_take]
    exact Nat.min_eq_left (Nat.le_trans (by decide) room)
  have count : data.take 4 = (data.take 4 ++ field ++ data.drop 8).take 4 := by
    rw [List.append_assoc, List.take_left' front]
  have records : data.drop 8 = (data.take 4 ++ field ++ data.drop 8).drop 8 := by
    rw [List.drop_left' (by rw [List.length_append, front, size])]
  apply refused_of_not_read
  intro found again
  apply changed
  rw [eq_of_same_count accepted again count records, List.append_assoc, List.drop_left' front,
    List.take_left' size]

/-- A map that is cut short, goes on behind its last record or has another header is refused, the
first under every config.  Another count or another size alone is refused under every config. -/
theorem damaged_maps_are_refused :
    (∀ map entries, (read .strict map).value = .ok entries →
      LittleEndian.decode ((map.drop 4).take 4) = map.length ∧
      (∀ kept, kept <+: map → kept ≠ map → ∀ config, ∃ truncation,
        (read config kept).value = .error (.truncatedMap truncation)) ∧
      (∀ extra, extra ≠ [] → (read .strict (map ++ extra)).value =
        .error (.lengthMismatch map.length map.length (map.length + extra.length))) ∧
      ∀ header : Bytes, header.length = 8 → header ≠ map.take 8 →
        ∃ fault, (read .strict (header ++ map.drop 8)).value = .error fault) ∧
    ∀ config data entries, (read config data).value = .ok entries →
      ∀ field : Bytes, field.length = 4 →
        (field ≠ data.take 4 →
          ∃ fault, (read config (field ++ data.drop 4)).value = .error fault) ∧
        (field ≠ (data.drop 4).take 4 →
          ∃ fault, (read config (data.take 4 ++ field ++ data.drop 8)).value = .error fault) := by
  constructor
  · intro map entries accepted
    obtain ⟨frames, cut, _⟩ := cut_of_read_strict accepted
    refine ⟨?_, fun _ front shorter => truncated_of_isPrefix accepted front shorter,
      fun _ more => mismatched_of_append accepted more,
      fun _ size changed => refused_of_other_header accepted size changed⟩
    rw [cut.take_declared]
    exact LittleEndian.decode_encode cut.declared_lt
  · intro config data entries accepted field size
    exact ⟨refused_of_other_count accepted size, refused_of_other_declared accepted size⟩

/-- The other header counts and declares one record, which fits the first one but not the length. -/
theorem two_record_map_is_refused_when_damaged :
    let map : Bytes :=
      [2, 0, 0, 0, 20, 0, 0, 0, 0, 0x70, 2, 0, 42, 3, 1, 0x70, 2, 0, 42, 4]
    let entries : List Entry := [⟨0x7000, ⟨[1, 2, 3]⟩⟩, ⟨0x7001, ⟨[1, 2, 4]⟩⟩]
    (read .strict map).value = .ok entries ∧
      (∃ truncation, (read .lenient (map.take 14)).value = .error (.truncatedMap truncation)) ∧
      (read .strict (map ++ [0xff])).value = .error (.lengthMismatch 20 20 21) ∧
      (∃ fault, (read .strict ([1, 0, 0, 0, 14, 0, 0, 0] ++ map.drop 8)).value = .error fault) ∧
      (read .lenient (map ++ [0xff])).value = .ok entries ∧
      ∃ fault, (read .lenient ([1, 0, 0, 0] ++ (map ++ [0xff]).drop 4)).value = .error fault := by
  intro map entries
  have accepted : (read .strict map).value = .ok entries := by decide +kernel
  have tolerated : (read .lenient (map ++ [0xff])).value = .ok entries := by decide +kernel
  obtain ⟨strict, lenient⟩ := damaged_maps_are_refused
  obtain ⟨_, cutShort, goesOn, otherHeader⟩ := strict map entries accepted
  refine ⟨accepted, cutShort _ (List.take_prefix 14 map) (by decide) .lenient,
    goesOn [0xff] (by decide), otherHeader _ rfl (by decide), tolerated, ?_⟩
  exact (lenient .lenient _ entries tolerated [1, 0, 0, 0] rfl).1 (by decide)

end PrefixMap

end CompactOid
