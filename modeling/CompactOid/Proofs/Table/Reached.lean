import CompactOid.Proofs.Table.Growth

namespace CompactOid.Table

/-- The tables behind a run of calls, refused ones included. -/
inductive Reached : Table → Prop where
  | empty : Reached .empty
  | ofEntries (entries : List Entry) : Reached (ofEntries entries).value
  | ofMap {config : Config} {data : Bytes} {table : Table}
      (loaded : (ofMap config data).value = .ok table) : Reached table
  | run {table : Table} (reached : Reached table) (change : Edit) : Reached (change.run table).2

variable {table : Table} {code : Code}

theorem Coherent.ofMap {config : Config} {data : Bytes}
    (loaded : (Table.ofMap config data).value = .ok table) : table.Coherent := by
  obtain ⟨entries, _, rfl⟩ := ofMap_eq_ok_iff.mp loaded
  exact Coherent.ofEntries entries

theorem Coherent.run (coherent : table.Coherent) (change : Edit) :
    (change.run table).2.Coherent := by
  rcases run_cases table change with same | ⟨entry, _, admitted, grown⟩
  · rw [same]
    exact coherent
  · rw [grown]
    exact coherent.push admitted.freshCode

theorem Reached.coherent (reached : table.Reached) : table.Coherent := by
  induction reached with
  | empty => exact .empty
  | ofEntries entries => exact .ofEntries entries
  | ofMap loaded => exact .ofMap loaded
  | run _ change ih => exact ih.run change

theorem Coherent.contains_iff (coherent : table.Coherent) :
    table.contains code = true ↔ ∃ entry ∈ table.entries.toList, entry.code = code := by
  rw [coherent.contains_eq_isSome, Option.isSome_iff_exists]
  refine ⟨fun held => ?_, fun listed => ?_⟩
  · obtain ⟨oid, found⟩ := held
    exact ⟨⟨code, oid⟩, coherent.mem_of_oid? found, rfl⟩
  · obtain ⟨entry, member, rfl⟩ := listed
    exact ⟨entry.oid, coherent.oid?_of_mem member⟩

/-- Codes are unique and have the places of their entries, so that no look-up goes beyond the
entries.  Both maps answer what the entries say, the first one for a repeated identifier, and a
refused edit changes nothing. -/
theorem look_ups_agree_with_entries (reached : table.Reached) :
    (table.entries.toList.map Entry.code).Nodup ∧
    (∀ code place, table.places[code]? = some place ↔
      ∃ entry : Entry, table.entries[place]? = some entry ∧ entry.code = code) ∧
    (∀ code oid, table.oid? code = some oid ↔ ⟨code, oid⟩ ∈ table.entries.toList) ∧
    (∀ code, table.contains code = true ↔ ∃ entry ∈ table.entries.toList, entry.code = code) ∧
    (∀ oid, table.code? oid =
      (table.entries.toList.find? fun entry => entry.oid = oid).map Entry.code) ∧
    (∀ code oid, table.code? oid = some code → table.oid? code = some oid) ∧
    (∀ entry fault after, table.insert entry = (.error fault, after) → after = table) ∧
    (∀ oid fault after, table.assign oid = (.error fault, after) → after = table) := by
  have coherent := reached.coherent
  exact ⟨coherent.codesNodup, coherent.placed_iff, fun _ _ => coherent.oid?_eq_some_iff,
    fun _ => coherent.contains_iff, coherent.code?_eq, fun _ _ => coherent.oid?_of_code?,
    fun _ _ _ => insert_of_refused, fun _ _ _ => assign_of_refused⟩

/-- Loaded with a repeated code and a repeated identifier, then edited twice, once in vain.  The
assigned code has the place behind the two entries that the load kept. -/
theorem repeated_oid_has_its_first_code :
    let loaded := (Table.ofEntries
      [⟨0x7001, ⟨[1, 2, 3]⟩⟩, ⟨0x7000, ⟨[1, 2, 3]⟩⟩, ⟨0x7001, ⟨[2, 5, 4]⟩⟩]).value
    let table := (Edit.run (Edit.run loaded (.assign ⟨[1, 1]⟩)).2 (.insert ⟨39, ⟨[1, 3]⟩⟩)).2
    table.Reached ∧ table.places[(39 : Code)]? = some 2 ∧
      table.code? ⟨[1, 2, 3]⟩ = some 0x7001 ∧ table.oid? 0x7001 = some ⟨[1, 2, 3]⟩ := by
  intro loaded table
  have reached : table.Reached := .run (.run (.ofEntries _) _) _
  have listed : table.entries[2]? = some ⟨39, ⟨[1, 1]⟩⟩ := by decide +kernel
  have found : table.code? ⟨[1, 2, 3]⟩ = some 0x7001 := by decide +kernel
  obtain ⟨_, placed, _, _, _, answered, _⟩ := look_ups_agree_with_entries reached
  exact ⟨reached, (placed _ _).mpr ⟨_, listed, rfl⟩, found, answered _ _ found⟩

end CompactOid.Table
