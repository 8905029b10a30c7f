import CompactOid.Proofs.PrefixMap.Canonical
import CompactOid.Proofs.View.Agreement
import CompactOid.Publication

namespace CompactOid

namespace Table

variable {table : Table} {map : Bytes}

theorem ofMap_of_toMap (config : Config) (written : table.toMap.value = .ok map) :
    (ofMap config map).value = .ok (ofEntries table.entries.toList).value :=
  ofMap_eq_ok_iff.mpr ⟨_, PrefixMap.read_of_write config written, rfl⟩

end Table

namespace Publication

theorem ofMap_value (config : Config) (data : Bytes) :
    (ofMap config data).value = (Table.ofMap config data).value.map (Publication.mk config) := rfl

/-- Only the table is replaced, and only by one that was loaded. -/
theorem reload_value (publication : Publication) (data : Bytes) :
    (publication.reload data).value =
      match (Table.ofMap publication.config data).value with
      | .ok table => (.ok (), ⟨publication.config, table⟩)
      | .error fault => (.error fault, publication) := by
  rw [reload, Logged.bind]
  cases (Table.ofMap publication.config data).value <;> rfl

/-- Whatever was loaded and edited before, a table that can be written is published alike by its
map and as it is. -/
theorem reload_of_written_map_agrees (entries : List Entry) (edits : List Table.Edit)
    (publication : Publication) (map : Bytes)
    (written : ((Table.ofEntries entries).value.edit edits).toMap.value = .ok map) :
    let table := (Table.ofEntries entries).value.edit edits
    ∃ reloaded, (publication.reload map).value = (.ok (), reloaded) ∧
      reloaded.current.entries = table.entries ∧
      ∀ query, reloaded.view.ask query = (publication.publish table).value.view.ask query := by
  intro table
  have coherent : table.Coherent := (Table.Coherent.ofEntries entries).edit edits
  have same := coherent.entries_ofEntries
  refine ⟨⟨publication.config, (Table.ofEntries table.entries.toList).value⟩, ?_, ?_, ?_⟩
  · rw [reload_value, Table.ofMap_of_toMap publication.config written]
  · exact Array.toList_inj.mp same
  · exact View.ask_of_same_entries (.ofEntries _) coherent same publication.config.policy

/-- Both identifiers and codes collide, and the refused edit is left out of the map. -/
theorem reload_of_colliding_map_agrees :
    let table := (Table.ofEntries
      [⟨8, ⟨[1, 2, 3]⟩⟩, ⟨0x7000, ⟨[1, 2, 3]⟩⟩, ⟨0x7001, ⟨[2, 5, 4]⟩⟩]).value.edit
      [.assign ⟨[1, 1]⟩, .insert ⟨8, ⟨[1, 3]⟩⟩]
    let map : Bytes :=
      [4, 0, 0, 0, 31, 0, 0, 0, 8, 0, 2, 0, 42, 3, 0, 0x70, 2, 0, 42, 3,
        1, 0x70, 2, 0, 85, 4, 39, 0, 1, 0, 41]
    let publication : Publication := .ofConfig ⟨.reservedWins, true⟩
    table.toMap.value = .ok map ∧
      ∃ reloaded, (publication.reload map).value = (.ok (), reloaded) ∧
        reloaded.current.entries = table.entries ∧
        reloaded.view.ask (.encode "2.5.4.3") = (publication.publish table).value.view.ask
          (.encode "2.5.4.3") := by
  intro table map publication
  have written : table.toMap.value = .ok map := by decide +kernel
  obtain ⟨reloaded, loaded, same, agree⟩ :=
    reload_of_written_map_agrees _ _ publication map written
  exact ⟨written, reloaded, loaded, same, agree _⟩

end Publication

end CompactOid
