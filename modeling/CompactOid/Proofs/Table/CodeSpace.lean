import CompactOid.Proofs.Table.Answers
import Mathlib.Data.List.Induction
import Mathlib.Data.List.Perm.Subperm

namespace CompactOid

/-! The codes of tables that only edits made.

An edit adds an entry only if its code and its identifier are new and the code
is not reserved.  So the tables made by edits alone hold exactly the lists of
entries that are `Insertable`, their two maps are inverse to each other, and the
codes run out only when every one of them has an entry.
-/

/-- No two of the entries have a code or an identifier in common, and each of them may be stored
under its code. -/
structure Insertable (entries : List Entry) : Prop where
  codesNodup : (entries.map Entry.code).Nodup
  oidsNodup : (entries.map Entry.oid).Nodup
  above : ∀ entry ∈ entries, 0x26 < entry.code.toNat
  rooted : ∀ entry ∈ entries, entry.oid.WellRooted

theorem insertable_append_singleton_iff {entries : List Entry} {entry : Entry} :
    Insertable (entries ++ [entry]) ↔
      Insertable entries ∧ entry.code ∉ entries.map Entry.code ∧
        entry.oid ∉ entries.map Entry.oid ∧ 0x26 < entry.code.toNat ∧ entry.oid.WellRooted := by
  have codes := List.nodup_concat (entries.map Entry.code) entry.code
  have oids := List.nodup_concat (entries.map Entry.oid) entry.oid
  rw [List.concat_eq_append] at codes oids
  refine ⟨fun insertable => ?_, fun admitted => ?_⟩
  · obtain ⟨codesNodup, oidsNodup, above, rooted⟩ := insertable
    rw [List.map_append, List.map_singleton] at codesNodup oidsNodup
    rw [List.forall_mem_append, List.forall_mem_singleton] at above rooted
    obtain ⟨freshCode, codesNodup⟩ := codes.mp codesNodup
    obtain ⟨freshOid, oidsNodup⟩ := oids.mp oidsNodup
    exact ⟨⟨codesNodup, oidsNodup, above.1, rooted.1⟩, freshCode, freshOid, above.2, rooted.2⟩
  · obtain ⟨⟨codesNodup, oidsNodup, above, rooted⟩, freshCode, freshOid, low, root⟩ := admitted
    refine ⟨?_, ?_, ?_, ?_⟩
    · rw [List.map_append, List.map_singleton]
      exact codes.mpr ⟨freshCode, codesNodup⟩
    · rw [List.map_append, List.map_singleton]
      exact oids.mpr ⟨freshOid, oidsNodup⟩
    · exact List.forall_mem_append.mpr ⟨above, List.forall_mem_singleton.mpr low⟩
    · exact List.forall_mem_append.mpr ⟨rooted, List.forall_mem_singleton.mpr root⟩

namespace Table

variable {table : Table} {code : Code} {oid : Oid} {entry : Entry} {entries : List Entry}

theorem Coherent.code?_eq_none_iff (coherent : table.Coherent) :
    table.code? oid = none ↔ oid ∉ table.entries.toList.map Entry.oid := by
  rw [coherent.code?_eq, Option.map_eq_none_iff, List.find?_eq_none, List.mem_map]
  simp only [decide_eq_true_eq, not_exists, not_and]

theorem Coherent.admits_iff (coherent : table.Coherent) :
    table.Admits entry ↔
      entry.code ∉ table.entries.toList.map Entry.code ∧
        entry.oid ∉ table.entries.toList.map Entry.oid ∧
        0x26 < entry.code.toNat ∧ entry.oid.WellRooted := by
  have held : table.contains entry.code = false ↔
      entry.code ∉ table.entries.toList.map Entry.code := by
    rw [← coherent.not_holds_iff, Holds, List.mem_map]
  rw [← held, ← coherent.code?_eq_none_iff, ← Reserved.contains_eq_false_iff,
    ← Oid.toBer_exists_iff]
  refine ⟨fun admitted => ?_, fun admitted => ?_⟩
  · exact ⟨admitted.freshCode, admitted.freshOid, admitted.unreserved, admitted.encodable⟩
  · obtain ⟨freshCode, freshOid, unreserved, encodable⟩ := admitted
    exact ⟨unreserved, freshCode, freshOid, encodable⟩

theorem Coherent.insertable_push_iff (coherent : table.Coherent) :
    Insertable (table.push entry).entries.toList ↔
      Insertable table.entries.toList ∧ table.Admits entry := by
  rw [entries_push, insertable_append_singleton_iff, coherent.admits_iff]

/-- A table that only edits made. -/
structure Grown (table : Table) : Prop where
  coherent : table.Coherent
  insertable : Insertable table.entries.toList

theorem Grown.empty : Table.empty.Grown :=
  ⟨.empty, .nil, .nil, List.forall_mem_nil _, List.forall_mem_nil _⟩

theorem Grown.push (grown : table.Grown) (admitted : table.Admits entry) :
    (table.push entry).Grown :=
  ⟨grown.coherent.push admitted.freshCode,
    grown.coherent.insertable_push_iff.mpr ⟨grown.insertable, admitted⟩⟩

theorem Grown.edit (grown : table.Grown) (edits : List Edit) : (table.edit edits).Grown :=
  edit_induction edits grown fun _ _ kept admitted => kept.push admitted

theorem entries_edit_insert (insertable : Insertable entries) :
    (Table.empty.edit (entries.map .insert)).entries.toList = entries := by
  induction entries using List.reverseRecOn with
  | nil => rfl
  | append_singleton earlier last ih =>
      obtain ⟨before, admitted⟩ := insertable_append_singleton_iff.mp insertable
      have coherent := Coherent.empty.edit (earlier.map .insert)
      have kept := ih before
      rw [List.map_append, edit_append]
      generalize Table.empty.edit (earlier.map .insert) = table at kept coherent
      subst kept
      simp [edit, run_insert_of_admits (coherent.admits_iff.mpr admitted)]

/-- Exactly the lists of insertable entries are those of the tables that edits make of the empty
one. -/
theorem edited_iff_insertable :
    (∃ edits, (Table.empty.edit edits).entries.toList = entries) ↔ Insertable entries := by
  refine ⟨fun edited => ?_, fun insertable => ⟨_, entries_edit_insert insertable⟩⟩
  obtain ⟨edits, rfl⟩ := edited
  exact (Grown.empty.edit edits).insertable

theorem length_customCodes : customCodes.length = 65497 := by
  rw [customCodes, List.length_map, List.length_range']
  rfl

theorem nodup_customCodes : customCodes.Nodup :=
  sorted_customCodes.imp UInt16.ne_of_lt

theorem length_codes (table : Table) :
    (table.entries.toList.map Entry.code).length = table.size := by
  rw [List.length_map, Array.length_toList, size]

namespace Grown

theorem oid?_iff_code? (grown : table.Grown) :
    table.oid? code = some oid ↔ table.code? oid = some code := by
  refine ⟨fun found => ?_, grown.coherent.oid?_of_code?⟩
  obtain ⟨first, answered⟩ := grown.coherent.code?_exists found
  have same := List.inj_on_of_nodup_map grown.insertable.oidsNodup
    (grown.coherent.mem_of_code? answered) (grown.coherent.mem_of_oid? found) rfl
  cases same
  exact answered

theorem codes_subperm (grown : table.Grown) :
    (table.entries.toList.map Entry.code).Subperm customCodes := by
  refine grown.insertable.codesNodup.subperm ?_
  intro code member
  obtain ⟨entry, listed, rfl⟩ := List.mem_map.mp member
  exact mem_customCodes.mpr (grown.insertable.above entry listed)

theorem size_le (grown : table.Grown) : table.size ≤ 65497 := by
  rw [← table.length_codes, ← length_customCodes]
  exact grown.codes_subperm.length_le

/-- As many different codes as there are custom ones leave none of them out. -/
theorem full_iff (grown : table.Grown) :
    (∀ code : Code, 0x26 < code.toNat → table.Holds code) ↔ table.size = 65497 := by
  have covered : (∀ code : Code, 0x26 < code.toNat → table.Holds code) ↔
      customCodes ⊆ table.entries.toList.map Entry.code := by
    simp only [List.subset_def, mem_customCodes, List.mem_map, Holds]
  rw [covered, ← table.length_codes, ← length_customCodes]
  refine ⟨fun full => ?_, fun counted => ?_⟩
  · exact Nat.le_antisymm grown.codes_subperm.length_le (nodup_customCodes.subperm full).length_le
  · exact (grown.codes_subperm.perm_of_length_le (Nat.le_of_eq counted.symm)).symm.subset

theorem run_assign_eq_exhausted_iff (grown : table.Grown) :
    (Edit.run table (.assign oid)).1 = .error .codesExhausted ↔
      oid ∉ Reserved.entries.map Entry.oid ∧ table.code? oid = none ∧ table.size = 65497 := by
  rw [← grown.full_iff]
  refine ⟨fun refused => ?_, fun without => ?_⟩
  · obtain ⟨entries, assignment⟩ :
        ∃ entries, table.Assignment oid (.error .codesExhausted) entries :=
      ⟨_, grown.coherent.run_assign_iff.mp ⟨refused, rfl⟩⟩
    cases assignment with
    | exhausted unreserved unknown full => exact ⟨unreserved, unknown, full⟩
  · obtain ⟨unreserved, unknown, full⟩ := without
    exact (grown.coherent.run_of_assignment (.exhausted unreserved unknown full)).1

end Grown

/-- Edits alone keep codes and identifiers one to one, and they run out of codes only when each
code that is not reserved has an entry. -/
theorem edits_fill_the_code_space (edits : List Edit) (oid : Oid) :
    let table := Table.empty.edit edits
    (∀ entry ∈ table.entries.toList, 0x26 < entry.code.toNat) ∧
    (table.entries.toList.map Entry.oid).Nodup ∧
    (∀ code oid, table.oid? code = some oid ↔ table.code? oid = some code) ∧
    table.size ≤ 65497 ∧
    ((Edit.run table (.assign oid)).1 = .error .codesExhausted ↔
      oid ∉ Reserved.entries.map Entry.oid ∧ table.code? oid = none ∧ table.size = 65497) := by
  intro table
  have grown : table.Grown := Grown.empty.edit edits
  exact ⟨grown.insertable.above, grown.insertable.oidsNodup, fun _ _ => grown.oid?_iff_code?,
    grown.size_le, grown.run_assign_eq_exhausted_iff⟩

/-- One entry for each code that is not reserved. -/
def everyCode : List Entry :=
  customCodes.map fun code => ⟨code, ⟨[2, 999, code.toUInt32]⟩⟩

theorem insertable_everyCode : Insertable everyCode where
  codesNodup := by
    simpa [everyCode, Function.comp_def] using nodup_customCodes
  oidsNodup := by
    rw [everyCode, List.map_map]
    refine nodup_customCodes.map ?_
    intro code other same
    exact UInt16.toUInt32_inj.mp (by simpa using same)
  above entry member := by
    obtain ⟨code, listed, rfl⟩ := List.mem_map.mp member
    exact mem_customCodes.mp listed
  rooted entry member := by
    obtain ⟨code, listed, rfl⟩ := List.mem_map.mp member
    exact ⟨2, 999, _, rfl, by decide, by decide⟩

theorem last_code_is_used :
    ∃ edits, (Table.empty.edit edits).size = 65497 ∧
      (Edit.run (Table.empty.edit edits) (.assign ⟨[1, 2, 3]⟩)).1 = .error .codesExhausted := by
  have entries := entries_edit_insert insertable_everyCode
  have size : (Table.empty.edit (everyCode.map .insert)).size = 65497 := by
    rw [← length_codes, entries, everyCode, List.length_map, List.length_map, length_customCodes]
  obtain ⟨_, _, _, _, exhausted⟩ := edits_fill_the_code_space (everyCode.map .insert) ⟨[1, 2, 3]⟩
  refine ⟨_, size, exhausted.mpr ⟨by decide, ?_, size⟩⟩
  rw [(Coherent.empty.edit _).code?_eq_none_iff, entries, everyCode, List.map_map, List.mem_map]
  rintro ⟨code, _, same⟩
  simp at same

end Table

end CompactOid
