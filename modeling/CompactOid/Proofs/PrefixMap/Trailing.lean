import CompactOid.Proofs.PrefixMap.Integrity

namespace CompactOid

namespace Frame

variable {config : Config} {policy : Policy} {data rest : Bytes} {frames : List Frame}
  {count declared : Nat}

/-- The size that a map declares in its header. -/
def declaredSize (data : Bytes) : Nat :=
  LittleEndian.decode ((data.drop 4).take 4)

theorem Cut.declaredSize_eq (cut : Cut data count declared frames rest) :
    declaredSize data = declared := by
  rw [declaredSize, cut.take_declared]
  exact LittleEndian.decode_encode cut.declared_lt

theorem Cut.take_mapSize (cut : Cut data count declared frames rest) :
    Cut (data.take (mapSize frames)) count declared frames [] :=
  { cut with
    divided := by
      have size : (LittleEndian.encode 4 count ++ LittleEndian.encode 4 declared ++
          frames.flatMap bytes).length = mapSize frames := by
        rw [List.length_append, length_records, mapSize_eq]
        rfl
      rw [cut.divided, ← List.append_assoc, List.take_left' size, List.append_nil] }

theorem ofMap_lenient_eq_ok_iff :
    ofMap ⟨policy, true⟩ data = .ok frames ↔
      ∃ rest, Cut data frames.length (mapSize frames) frames rest := by
  rw [ofMap_eq_ok_iff]
  refine ⟨fun divided => ?_, fun divided => ?_⟩
  · obtain ⟨declared, rest, cut, spanned, _⟩ := divided
    exact ⟨rest, by rwa [spanned]⟩
  · obtain ⟨rest, cut⟩ := divided
    have length := cut.length_eq
    refine ⟨mapSize frames, rest, cut, rfl, ?_⟩
    rcases Nat.eq_or_lt_of_le (Nat.le.intro length.symm) with ends | before
    · exact .inl ends
    · exact .inr ⟨rfl, before⟩

theorem ofMap_lenient_of_ok (policy : Policy) (framed : ofMap config data = .ok frames) :
    ofMap ⟨policy, true⟩ data = .ok frames := by
  obtain ⟨declared, rest, cut, spanned, _⟩ := ofMap_eq_ok_iff.mp framed
  rw [← spanned] at cut
  exact ofMap_lenient_eq_ok_iff.mpr ⟨rest, cut⟩

theorem ofMap_lenient_append (framed : ofMap ⟨policy, true⟩ data = .ok frames) (extra : Bytes) :
    ofMap ⟨policy, true⟩ (data.take (declaredSize data) ++ extra) = .ok frames := by
  obtain ⟨rest, cut⟩ := ofMap_lenient_eq_ok_iff.mp framed
  rw [cut.declaredSize_eq]
  exact ofMap_lenient_eq_ok_iff.mpr ⟨_, cut.take_mapSize.append extra⟩

theorem ofMap_lenient_eq_ok_iff_strict (policy : Policy) (data : Bytes) :
    ofMap ⟨policy, true⟩ data = .ok frames ↔
      declaredSize data ≤ data.length ∧
        ofMap .strict (data.take (declaredSize data)) = .ok frames := by
  rw [ofMap_lenient_eq_ok_iff, Config.strict, ofMap_strict_eq_ok_iff]
  refine ⟨fun divided => ?_, fun divided => ?_⟩
  · obtain ⟨rest, cut⟩ := divided
    have within : mapSize frames ≤ data.length := Nat.le.intro cut.length_eq.symm
    have part := cut.take_mapSize
    rw [cut.declaredSize_eq, List.length_take, Nat.min_eq_left within]
    exact ⟨within, part⟩
  · obtain ⟨within, part⟩ := divided
    have size : (data.take (declaredSize data)).length = declaredSize data := by
      rw [List.length_take, Nat.min_eq_left within]
    have spanned : mapSize frames = declaredSize data := by simpa [size] using part.length_eq.symm
    have cut := part.append (data.drop (declaredSize data))
    rw [List.take_append_drop, size, ← spanned] at cut
    exact ⟨_, cut⟩

end Frame

namespace PrefixMap

variable {config other : Config} {data map : Bytes} {outcome : Except Fault (List Entry)}

/-- Nothing but the records is read. -/
theorem read_congr (same : Frame.ofMap config data = Frame.ofMap other map) :
    read config data = read other map := by
  simp only [read, same]

theorem read_lenient_iff_strict (policy : Policy) (data : Bytes) (records : OfRecords outcome) :
    (read ⟨policy, true⟩ data).value = outcome ↔
      Frame.declaredSize data ≤ data.length ∧
        (read .strict (data.take (Frame.declaredSize data))).value = outcome := by
  refine ⟨fun told => ?_, fun ⟨within, told⟩ => ?_⟩
  · obtain ⟨frames, framed⟩ := ofMap_of_ofRecords told records
    obtain ⟨within, part⟩ := (Frame.ofMap_lenient_eq_ok_iff_strict policy data).mp framed
    exact ⟨within, by rw [← told, read_congr (part.trans framed.symm)]⟩
  · obtain ⟨frames, part⟩ := ofMap_of_ofRecords told records
    have framed := (Frame.ofMap_lenient_eq_ok_iff_strict policy data).mpr ⟨within, part⟩
    rw [← told, read_congr (framed.trans part.symm)]

theorem read_lenient_append {policy : Policy} (told : (read ⟨policy, true⟩ data).value = outcome)
    (records : OfRecords outcome) (extra : Bytes) :
    (read ⟨policy, true⟩ (data.take (Frame.declaredSize data) ++ extra)).value = outcome := by
  obtain ⟨frames, framed⟩ := ofMap_of_ofRecords told records
  rw [← told, read_congr ((Frame.ofMap_lenient_append framed extra).trans framed.symm)]

theorem read_lenient_of_read (policy : Policy) (told : (read config data).value = outcome)
    (records : OfRecords outcome) : (read ⟨policy, true⟩ data).value = outcome := by
  obtain ⟨frames, framed⟩ := ofMap_of_ofRecords told records
  rw [← told, read_congr ((Frame.ofMap_lenient_of_ok policy framed).trans framed.symm)]

/-- Where bytes behind the records are tolerated, entries and flawed records are those that the
strict config finds in the declared part, and other bytes behind it do not change them. -/
theorem lenient_reads_the_declared_part (policy : Policy) (data : Bytes) :
    let lenient : Config := ⟨policy, true⟩
    let declared := Frame.declaredSize data
    (∀ entries, (read lenient data).value = .ok entries ↔
      declared ≤ data.length ∧ (read .strict (data.take declared)).value = .ok entries) ∧
    (∀ index flaw, (read lenient data).value = .error (.invalidEntry index flaw) ↔
      declared ≤ data.length ∧
        (read .strict (data.take declared)).value = .error (.invalidEntry index flaw)) ∧
    (∀ outcome, OfRecords outcome → (read lenient data).value = outcome →
      ∀ extra, (read lenient (data.take declared ++ extra)).value = outcome) ∧
    ∀ entries, (read .strict data).value = .ok entries → (read lenient data).value = .ok entries := by
  intro lenient declared
  refine ⟨fun entries => ?_, fun index flaw => ?_, fun outcome records told => ?_, fun entries => ?_⟩
  · exact read_lenient_iff_strict policy data (.entries entries)
  · exact read_lenient_iff_strict policy data (.flawed index flaw)
  · exact read_lenient_append told records
  · exact fun accepted => read_lenient_of_read policy accepted (.entries entries)

/-- The second record has no body here, and one byte comes behind it. -/
theorem flawed_record_is_found_in_the_declared_part :
    let data : Bytes := [2, 0, 0, 0, 18, 0, 0, 0, 0, 0x70, 2, 0, 42, 3, 1, 0x70, 0, 0, 0xff]
    let flawed : Except Fault (List Entry) := .error (.invalidEntry 1 (.emptyOid 0x7001))
    let map : Bytes := [1, 0, 0, 0, 14, 0, 0, 0, 0, 0x70, 2, 0, 42, 3]
    let entries : List Entry := [⟨0x7000, ⟨[1, 2, 3]⟩⟩]
    (read ⟨.reservedWins, true⟩ data).value = flawed ∧
      (read .strict (data.take 18)).value = flawed ∧
      (read ⟨.reservedWins, true⟩ (data.take 18 ++ [0, 0, 0])).value = flawed ∧
      (read .strict map).value = .ok entries ∧
      (read ⟨.reservedWins, true⟩ map).value = .ok entries := by
  intro data flawed map entries
  have told : (read ⟨.reservedWins, true⟩ data).value = flawed := by decide +kernel
  have accepted : (read .strict map).value = .ok entries := by decide +kernel
  obtain ⟨_, refused, behind, _⟩ := lenient_reads_the_declared_part .reservedWins data
  obtain ⟨_, _, _, tolerated⟩ := lenient_reads_the_declared_part .reservedWins map
  exact ⟨told, ((refused _ _).mp told).2, behind _ (.flawed _ _) told [0, 0, 0], accepted,
    tolerated _ accepted⟩

end PrefixMap

end CompactOid
