import CompactOid.Proofs.Reserved
import CompactOid.Proofs.Table.Loading
import CompactOid.Proofs.Table.Reached
import CompactOid.View

namespace CompactOid

namespace View

variable {table flat : Table}

theorem oid?_eq_flat (coherent : table.Coherent) (coherent' : flat.Coherent)
    (listed : flat.entries.toList = table.entries.toList ++
      Reserved.entries.filter fun entry => !table.contains entry.code) (code : Code) :
    (View.mk table .customOverrides).oid? code = flat.oid? code := by
  apply Option.ext
  intro oid
  rw [coherent'.oid?_eq_some_iff, listed, List.mem_append, List.mem_filter,
    ← coherent.oid?_eq_some_iff, Reserved.mem_entries_iff]
  simp [View.oid?, Option.or_eq_some_iff, coherent.oid?_eq_none_iff, and_comm]

theorem code?_eq_flat (coherent : table.Coherent) (coherent' : flat.Coherent)
    (listed : flat.entries.toList = table.entries.toList ++
      Reserved.entries.filter fun entry => !table.contains entry.code) (oid : Oid) :
    (View.mk table .customOverrides).code? oid = flat.code? oid := by
  rw [coherent'.code?_eq, listed, List.find?_append, Option.map_or, ← coherent.code?_eq,
    Reserved.find?_filter_entries fun code => !table.contains code]
  rfl

/-- Whatever was loaded and edited before, codes and identifiers have the answers of the table in
which the first entry of each code wins. -/
theorem custom_overrides_as_one_table (entries : List Entry) (edits : List Table.Edit) :
    let table := (Table.ofEntries entries).value.edit edits
    let view : View := ⟨table, .customOverrides⟩
    let flat := (Table.ofEntries (table.entries.toList ++ Reserved.entries)).value
    (∀ code, view.oid? code = flat.oid? code) ∧ ∀ oid, view.code? oid = flat.code? oid := by
  intro table view flat
  have coherent : table.Coherent := (Table.Coherent.ofEntries entries).edit edits
  have coherent' : flat.Coherent := Table.Coherent.ofEntries _
  have listed := coherent.entries_ofEntries_append Reserved.codes_nodup
  exact ⟨oid?_eq_flat coherent coherent' listed, code?_eq_flat coherent coherent' listed⟩

end View

end CompactOid
