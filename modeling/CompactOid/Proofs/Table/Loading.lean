import CompactOid.Proofs.Table.Growth

namespace CompactOid.Table

variable {table other : Table} {later : List Entry}

/-- The code of an entry tells whether it is kept if the entries have different codes. -/
theorem entries_foldl_accept (distinct : (later.map Entry.code).Nodup) :
    (later.foldl accept table).entries.toList =
      table.entries.toList ++ later.filter fun entry => !table.contains entry.code := by
  induction later generalizing table with
  | nil => simp
  | cons entry later ih =>
      obtain ⟨absent, distinct⟩ := List.nodup_cons.mp distinct
      rw [List.foldl_cons, ih distinct, accept]
      cases held : table.contains entry.code with
      | true => simp [held]
      | false =>
          have same : ∀ next ∈ later,
              (!(table.push entry).contains next.code) = !table.contains next.code := by
            intro next member
            have different : entry.code ≠ next.code := by
              intro repeated
              rw [repeated] at absent
              exact absent (List.mem_map_of_mem member)
            rw [contains_push, decide_eq_false different, Bool.false_or]
          simp [held, List.filter_congr same]

theorem Coherent.oid?_congr (coherent : table.Coherent) (coherent' : other.Coherent)
    (same : table.entries.toList = other.entries.toList) (code : Code) :
    table.oid? code = other.oid? code := by
  apply Option.ext
  intro oid
  rw [coherent.oid?_eq_some_iff, coherent'.oid?_eq_some_iff, same]

theorem Coherent.code?_congr (coherent : table.Coherent) (coherent' : other.Coherent)
    (same : table.entries.toList = other.entries.toList) (oid : Oid) :
    table.code? oid = other.code? oid := by
  rw [coherent.code?_eq, coherent'.code?_eq, same]

theorem Coherent.contains_congr (coherent : table.Coherent) (coherent' : other.Coherent)
    (same : table.entries.toList = other.entries.toList) (code : Code) :
    table.contains code = other.contains code := by
  rw [coherent.contains_eq_isSome, coherent'.contains_eq_isSome, coherent.oid?_congr coherent' same]

theorem Coherent.entries_ofEntries (coherent : table.Coherent) :
    (Table.ofEntries table.entries.toList).value.entries.toList = table.entries.toList := by
  have absent : ∀ code, Table.empty.contains code = false := fun _ => rfl
  have none : Table.empty.entries.toList = [] := rfl
  rw [ofEntries_value, entries_foldl_accept coherent.codesNodup, none]
  simp [absent]

theorem Coherent.entries_ofEntries_append (coherent : table.Coherent)
    (distinct : (later.map Entry.code).Nodup) :
    (Table.ofEntries (table.entries.toList ++ later)).value.entries.toList =
      table.entries.toList ++ later.filter fun entry => !table.contains entry.code := by
  have again := coherent.entries_ofEntries
  have same := (Coherent.ofEntries table.entries.toList).contains_congr coherent again
  rw [ofEntries_value, List.foldl_append, ← ofEntries_value, entries_foldl_accept distinct, again]
  simp only [same]

end CompactOid.Table
