import CompactOid.Proofs.Table.Extension
import Mathlib.Data.List.Induction

namespace CompactOid

/-- The remarks on an entry that is kept. -/
def Entry.collisions (entry : Entry) : List Event :=
  (if Reserved.contains entry.code then [.reservedCodeReused entry] else []) ++
    ((Reserved.code? entry.oid).map (Event.reservedOidRepeated entry)).toList

namespace Table

variable {table : Table} {entry : Entry} {entries : List Entry} {event : Event}

theorem ofEntries_append_singleton (entries : List Entry) (entry : Entry) :
    ofEntries (entries ++ [entry]) =
      ⟨(ofEntries entries).value.accept entry,
        (ofEntries entries).events ++ (ofEntries entries).value.remarks entry⟩ := by
  simp only [ofEntries, List.foldl_append, List.foldl_cons, List.foldl_nil, Array.toList_appendList]

theorem remarks_of_fresh (fresh : table.contains entry.code = false) :
    table.remarks entry = entry.collisions := by
  simp [remarks, fresh, Entry.collisions, Reserved.contains_eq_isSome]

theorem mem_events_of_kept (kept : entry ∈ (ofEntries entries).value.entries.toList)
    (collides : event ∈ entry.collisions) : event ∈ (ofEntries entries).events := by
  induction entries using List.reverseRecOn with
  | nil => simp [ofEntries, empty] at kept
  | append_singleton earlier last ih =>
      rw [ofEntries_append_singleton] at kept ⊢
      apply List.mem_append.mpr
      cases held : (ofEntries earlier).value.contains last.code with
      | true =>
          simp only [accept, held, if_true] at kept
          exact .inl (ih kept)
      | false =>
          simp only [accept, held, Bool.false_eq_true, if_false, entries_push] at kept
          rcases List.mem_append.mp kept with before | added
          · exact .inl (ih before)
          · cases List.mem_singleton.mp added
            rw [remarks_of_fresh held]
            exact .inr collides

/-- No entry has a reserved code or a reserved identifier. -/
structure Apart (table : Table) : Prop where
  code_unreserved : ∀ entry ∈ table.entries.toList, Reserved.contains entry.code = false
  oid_unreserved : ∀ entry ∈ table.entries.toList, Reserved.code? entry.oid = none

namespace Apart

theorem ofEntries (codes : ∀ entry, .reservedCodeReused entry ∉ (Table.ofEntries entries).events)
    (oids : ∀ entry reserved,
      .reservedOidRepeated entry reserved ∉ (Table.ofEntries entries).events) :
    (Table.ofEntries entries).value.Apart where
  code_unreserved entry kept := by
    cases collision : Reserved.contains entry.code with
    | false => rfl
    | true =>
        have collides : .reservedCodeReused entry ∈ entry.collisions := by
          simp [Entry.collisions, collision]
        exact absurd (mem_events_of_kept kept collides) (codes entry)
  oid_unreserved entry kept := by
    cases collision : Reserved.code? entry.oid with
    | none => rfl
    | some reserved =>
        have collides : .reservedOidRepeated entry reserved ∈ entry.collisions := by
          simp [Entry.collisions, collision]
        exact absurd (mem_events_of_kept kept collides) (oids entry reserved)

theorem push (apart : table.Apart) (code : Reserved.contains entry.code = false)
    (oid : Reserved.code? entry.oid = none) : (table.push entry).Apart where
  code_unreserved := by
    rw [entries_push]
    exact List.forall_mem_append.mpr
      ⟨apart.code_unreserved, List.forall_mem_singleton.mpr code⟩
  oid_unreserved := by
    rw [entries_push]
    exact List.forall_mem_append.mpr
      ⟨apart.oid_unreserved, List.forall_mem_singleton.mpr oid⟩

theorem edit (apart : table.Apart) {edits : List Edit}
    (avoid : ∀ change ∈ edits, change.AvoidsReserved) : (table.edit edits).Apart :=
  proposal_induction edits apart fun _ change member _ kept proposed admitted =>
    kept.push admitted.unreserved (proposed.unreserved (avoid change member))

theorem oid?_eq_none (apart : table.Apart) (coherent : table.Coherent) {code : Code}
    (reserved : Reserved.contains code = true) : table.oid? code = none := by
  cases held : table.oid? code with
  | none => rfl
  | some oid =>
      have unreserved := apart.code_unreserved _ (coherent.mem_of_oid? held)
      rw [reserved] at unreserved
      contradiction

end Apart

end Table

end CompactOid
