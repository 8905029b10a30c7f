import CompactOid.Proofs.Reserved
import CompactOid.Proofs.Table.Loading
import CompactOid.Proofs.Table.Remarks
import CompactOid.View.Query

namespace CompactOid

/-! Views that answer alike.

Every answer of a view goes back to its look-ups of codes and identifiers, so
tables with the same entries have the same views.  Over a table that is apart
from the reserved entries no look-up finds something in both halves, and it does
not matter which of them is asked first.
-/

namespace View

variable {left right : View} {table other : Table}

theorem ask_congr (oids : ∀ code, left.oid? code = right.oid? code)
    (codes : ∀ oid, left.code? oid = right.code? oid) (query : Query) :
    left.ask query = right.ask query := by
  have expands : ∀ reference, left.expand reference = right.expand reference := by
    intro reference
    simp only [expand, oids]
  have compresses : ∀ oid, left.compress oid = right.compress oid := by
    intro oid
    simp only [compress, codes]
  cases query <;> simp only [ask, decode, encode, oids, codes, expands, compresses]

theorem ask_of_same_entries (coherent : table.Coherent) (coherent' : other.Coherent)
    (same : table.entries.toList = other.entries.toList) (policy : Policy) (query : Query) :
    (View.mk table policy).ask query = (View.mk other policy).ask query := by
  apply ask_congr
  · intro code
    simp only [View.oid?, coherent.oid?_congr coherent' same]
  · intro oid
    simp only [View.code?, coherent.code?_congr coherent' same, coherent.contains_congr coherent' same]

theorem oid?_of_apart (apart : table.Apart) (coherent : table.Coherent) (policy : Policy)
    (code : Code) :
    (View.mk table policy).oid? code = (table.oid? code).or (Reserved.oid? code) := by
  cases policy with
  | customOverrides => rfl
  | reservedWins =>
      cases reserved : Reserved.oid? code with
      | none => simp [View.oid?, reserved]
      | some oid =>
          have absent := apart.oid?_eq_none coherent (Reserved.contains_of_oid? reserved)
          simp [View.oid?, reserved, absent]

theorem code?_of_apart (apart : table.Apart) (coherent : table.Coherent) (policy : Policy)
    (oid : Oid) :
    (View.mk table policy).code? oid = (table.code? oid).or (Reserved.code? oid) := by
  cases own : table.code? oid with
  | none =>
      cases held : Reserved.code? oid with
      | none => cases policy <;> simp [View.code?, own, held]
      | some code =>
          have reserved := Reserved.contains_of_oid? (Reserved.oid?_of_code? held)
          have visible := coherent.oid?_eq_none_iff.mp (apart.oid?_eq_none coherent reserved)
          cases policy <;> simp [View.code?, own, held, visible]
  | some code =>
      have listed := coherent.mem_of_code? own
      have visible := apart.code_unreserved _ listed
      have unreserved := apart.oid_unreserved _ listed
      cases policy <;> simp [View.code?, own, visible, unreserved]

/-- A load without a remark on a collision, and any assignments after it, lead to a table over which
both policies give every answer alike. -/
theorem policies_agree_without_remarks (entries : List Entry)
    (codes : ∀ entry, .reservedCodeReused entry ∉ (Table.ofEntries entries).events)
    (oids : ∀ entry reserved,
      .reservedOidRepeated entry reserved ∉ (Table.ofEntries entries).events)
    (assigned : List Oid) :
    let table := (Table.ofEntries entries).value.edit (assigned.map .assign)
    ∀ query, (View.mk table .customOverrides).ask query = (View.mk table .reservedWins).ask query := by
  intro table
  have avoid : ∀ change ∈ assigned.map Table.Edit.assign, change.AvoidsReserved := by
    intro change member
    obtain ⟨oid, _, rfl⟩ := List.mem_map.mp member
    trivial
  have apart : table.Apart := (Table.Apart.ofEntries codes oids).edit avoid
  have coherent : table.Coherent := (Table.Coherent.ofEntries entries).edit _
  apply ask_congr
  · intro code
    rw [oid?_of_apart apart coherent, oid?_of_apart apart coherent]
  · intro oid
    rw [code?_of_apart apart coherent, code?_of_apart apart coherent]

/-- The entry that would collide is dropped, since its code came before. -/
theorem policies_agree_after_dropped_collision :
    let entries : List Entry :=
      [⟨0x7001, ⟨[1, 2, 3]⟩⟩, ⟨0x7000, ⟨[1, 2, 3]⟩⟩, ⟨0x7001, ⟨[2, 5, 4]⟩⟩]
    let table := (Table.ofEntries entries).value.edit ([⟨[2, 5, 5]⟩, ⟨[1, 1]⟩].map .assign)
    (Table.ofEntries entries).events = [.duplicateIgnored ⟨0x7001, ⟨[2, 5, 4]⟩⟩] ∧
      (View.mk table .customOverrides).ask (.encode "1.1.7") = .ok (.reference ⟨0x00270007⟩) ∧
      (View.mk table .reservedWins).ask (.encode "1.1.7") = .ok (.reference ⟨0x00270007⟩) := by
  intro entries table
  have remarks : (Table.ofEntries entries).events =
      [.duplicateIgnored ⟨0x7001, ⟨[2, 5, 4]⟩⟩] := by decide +kernel
  have encoded : (View.mk table .customOverrides).ask (.encode "1.1.7") =
      .ok (.reference ⟨0x00270007⟩) := by decide +kernel
  have agree := policies_agree_without_remarks entries (by simp [remarks]) (by simp [remarks])
    [⟨[2, 5, 5]⟩, ⟨[1, 1]⟩]
  exact ⟨remarks, encoded, (agree (.encode "1.1.7")).symm.trans encoded⟩

end View

end CompactOid
