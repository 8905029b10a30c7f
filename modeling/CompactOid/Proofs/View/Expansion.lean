import CompactOid.Proofs.Oid.Canonical
import CompactOid.Proofs.Oid.Dotted
import CompactOid.Proofs.Reserved
import CompactOid.Proofs.Table.Reached
import CompactOid.Proofs.Table.Saving
import CompactOid.View

namespace CompactOid

namespace Oid

variable {oid : Oid}

theorem WellRooted.two_le_length (rooted : oid.WellRooted) : 2 ≤ oid.arcs.length := by
  obtain ⟨first, second, later, rfl, _⟩ := rooted
  exact Nat.le_add_left 2 later.length

theorem WellRooted.child (rooted : oid.WellRooted) (arc : Arc) : (oid.child arc).WellRooted := by
  obtain ⟨first, second, later, rfl, known, small⟩ := rooted
  exact ⟨first, second, later ++ [arc], rfl, known, small⟩

theorem length_child (oid : Oid) (arc : Arc) : (oid.child arc).arcs.length = oid.arcs.length + 1 :=
  List.length_append

theorem WellRooted.read_back (rooted : oid.WellRooted) :
    ∃ form, oid.toBer = .ok form ∧ ofBer form = .ok oid := by
  obtain ⟨form, written⟩ := toBer_exists_iff.mpr rooted
  exact ⟨form, written, ofBer_of_toBer written⟩

theorem WellRooted.parse_text (rooted : oid.WellRooted) : parse oid.text = .ok oid :=
  parse_eq_ok_iff.mpr (dotted_iff.mpr ⟨rooted.two_le_length, rfl⟩)

end Oid

theorem Reserved.wellRooted_of_oid? {code : Code} {oid : Oid} (found : oid? code = some oid) :
    oid.WellRooted := by
  have all : ∀ entry ∈ entries, entry.oid.WellRooted := by decide
  have listed : ⟨code, oid⟩ ∈ entries := mem_entries_iff.mpr found
  exact all _ listed

/-- Every entry has an identifier with a BER form. -/
def Table.Rooted (table : Table) : Prop :=
  ∀ entry ∈ table.entries.toList, entry.oid.WellRooted

namespace Table

variable {table : Table}

theorem Rooted.ofStart
    (start : table = .empty ∨ ∃ config data, (Table.ofMap config data).value = .ok table) :
    table.Rooted := by
  intro entry member
  obtain ⟨body, encoded, _⟩ := storable_of_start start entry member
  exact Oid.toBer_exists_iff.mp ⟨body, encoded⟩

theorem Rooted.edit (rooted : table.Rooted) (edits : List Edit) : (table.edit edits).Rooted := by
  obtain ⟨added, grown, encodable⟩ := edit_appends table edits
  rw [Rooted, grown]
  refine List.forall_mem_append.mpr ⟨rooted, fun entry member => ?_⟩
  exact Oid.toBer_exists_iff.mp (encodable entry member)

theorem Coherent.ofStart
    (start : table = .empty ∨ ∃ config data, (Table.ofMap config data).value = .ok table) :
    table.Coherent := by
  obtain rfl | ⟨config, data, loaded⟩ := start
  · exact .empty
  · exact .ofMap loaded

end Table

namespace View

variable {view : View} {code : Code} {oid : Oid} {reference : Reference}

theorem wellRooted_of_oid? (coherent : view.custom.Coherent) (rooted : view.custom.Rooted)
    (found : view.oid? code = some oid) : oid.WellRooted := by
  have halves : view.custom.oid? code = some oid ∨ Reserved.oid? code = some oid := by
    obtain ⟨table, policy⟩ := view
    cases policy with
    | customOverrides => exact (Option.or_eq_some_iff.mp found).imp_right And.right
    | reservedWins => exact ((Option.or_eq_some_iff.mp found).imp_right And.right).symm
  rcases halves with own | reserved
  · exact rooted _ (coherent.mem_of_oid? own)
  · exact Reserved.wellRooted_of_oid? reserved

theorem expand_eq_ok_iff :
    view.expand reference = .ok oid ↔
      ∃ parent, view.oid? reference.code = some parent ∧
        oid = parent.child reference.item.toUInt32 := by
  rw [expand]
  cases view.oid? reference.code with
  | none => simp
  | some parent => simp [eq_comm]

/-- Whatever was loaded and edited, an identifier that a reference stands for has three arcs or more
and is read back from its BER form and from the text that the reference is decoded to. -/
theorem expanded_identifiers_are_read_back (table : Table)
    (start : table = .empty ∨ ∃ config data, (Table.ofMap config data).value = .ok table)
    (edits : List Table.Edit) (policy : Policy) (reference : Reference) (oid : Oid)
    (expanded : (View.mk (table.edit edits) policy).expand reference = .ok oid) :
    3 ≤ oid.arcs.length ∧
    (∃ form, oid.toBer = .ok form ∧ Oid.ofBer form = .ok oid) ∧
    ∃ text, (View.mk (table.edit edits) policy).decode reference = .ok text ∧
      Oid.parse text = .ok oid := by
  have coherent := (Table.Coherent.ofStart start).edit edits
  have entries := (Table.Rooted.ofStart start).edit edits
  obtain ⟨parent, found, same⟩ := expand_eq_ok_iff.mp expanded
  have above : parent.WellRooted := wellRooted_of_oid? coherent entries found
  have rooted : oid.WellRooted := by
    rw [same]
    exact above.child _
  refine ⟨?_, rooted.read_back, oid.text, ?_, rooted.parse_text⟩
  · rw [same, Oid.length_child]
    exact Nat.succ_le_succ above.two_le_length
  · rw [decode, expanded]
    rfl

/-- A padded record took over a reserved code, and a code was assigned behind a refused edit. -/
theorem reference_of_padded_record_is_read_back :
    ∃ table, (Table.ofMap .lenient
        [1, 0, 0, 0, 15, 0, 0, 0, 8, 0, 3, 0, 42, 0x80, 5, 0xff]).value = .ok table ∧
      let view : View := ⟨table.edit [.assign ⟨[]⟩, .assign ⟨[1, 2, 6]⟩], .customOverrides⟩
      (∃ form, Oid.toBer ⟨[1, 2, 5, 7]⟩ = .ok form ∧ Oid.ofBer form = .ok ⟨[1, 2, 5, 7]⟩) ∧
      ∃ text, view.decode ⟨0x00080007⟩ = .ok text ∧ Oid.parse text = .ok ⟨[1, 2, 5, 7]⟩ := by
  have evaluated : (Table.ofMap .lenient
        [1, 0, 0, 0, 15, 0, 0, 0, 8, 0, 3, 0, 42, 0x80, 5, 0xff]).value.map
      (fun table => (View.mk (table.edit [.assign ⟨[]⟩, .assign ⟨[1, 2, 6]⟩])
        .customOverrides).expand ⟨0x00080007⟩) = .ok (.ok ⟨[1, 2, 5, 7]⟩) := by decide +kernel
  obtain ⟨table, loaded, expanded⟩ := map_eq_ok_iff.mp evaluated
  obtain ⟨_, written, decoded⟩ :=
    expanded_identifiers_are_read_back table (.inr ⟨_, _, loaded⟩) _ _ _ _ expanded
  exact ⟨table, loaded, written, decoded⟩

end View

end CompactOid
