import CompactOid.Proofs.Reserved
import CompactOid.Proofs.Table.Loading
import CompactOid.Proofs.Table.Remarks

namespace CompactOid

/-! Repeated codes in a load.

What a load does with an entry depends on the codes in front of it alone.  Those
of dropped entries make no difference, since an entry in front of them has the
same code.  The specifications here look at the list only, at each entry with
the ones in front of it.
-/

/-- Each entry, with those in front of it. -/
def withEarlier (entries : List Entry) : List (List Entry × Entry) :=
  entries.mapIdx fun index entry => (entries.take index, entry)

/-- The entries of which the code does not occur in front of them. -/
def firstOfEachCode (entries : List Entry) : List Entry :=
  ((withEarlier entries).filter fun (earlier, entry) =>
    entry.code ∉ earlier.map Entry.code).map Prod.snd

/-- What is to be said about an entry that comes behind these. -/
def Entry.remarksBehind (earlier : List Entry) (entry : Entry) : List Event :=
  if entry.code ∈ earlier.map Entry.code then [.duplicateIgnored entry]
  else
    (if entry.code.toNat ≤ 0x26 then [.reservedCodeReused entry] else []) ++
      (Reserved.entries.filter fun reserved => reserved.oid = entry.oid).map fun reserved =>
        .reservedOidRepeated entry reserved.code

/-- What is to be said about the entries, one after the other. -/
def remarksOn (entries : List Entry) : List Event :=
  (withEarlier entries).flatMap fun (earlier, entry) => entry.remarksBehind earlier

variable {entries : List Entry} {entry : Entry} {event : Event} {code : Code}

theorem withEarlier_append_singleton (entries : List Entry) (last : Entry) :
    withEarlier (entries ++ [last]) = withEarlier entries ++ [(entries, last)] := by
  have same : (entries.mapIdx fun index entry => ((entries ++ [last]).take index, entry)) =
      withEarlier entries := by
    rw [withEarlier, List.mapIdx_eq_mapIdx_iff]
    intro index bound
    rw [List.take_append_of_le_length (Nat.le_of_lt bound)]
  rw [withEarlier, List.mapIdx_concat, same, List.take_left]

theorem firstOfEachCode_append_singleton (entries : List Entry) (last : Entry) :
    firstOfEachCode (entries ++ [last]) =
      firstOfEachCode entries ++
        if last.code ∈ entries.map Entry.code then [] else [last] := by
  rw [firstOfEachCode, withEarlier_append_singleton, List.filter_append, List.map_append,
    ← firstOfEachCode]
  by_cases repeated : last.code ∈ entries.map Entry.code
  · simp only [List.filter_singleton, repeated, not_true_eq_false, decide_false, cond_false,
      List.map_nil, if_true]
  · simp only [List.filter_singleton, repeated, not_false_eq_true, decide_true, cond_true,
      List.map_singleton, if_false]

theorem remarksOn_append_singleton (entries : List Entry) (last : Entry) :
    remarksOn (entries ++ [last]) = remarksOn entries ++ last.remarksBehind entries := by
  rw [remarksOn, withEarlier_append_singleton, List.flatMap_append, List.flatMap_singleton,
    ← remarksOn]

/-- An entry that is kept is told by its collisions only. -/
theorem Entry.remark_cases {earlier : List Entry} (fresh : entry.code ∉ earlier.map Entry.code)
    (told : event ∈ entry.remarksBehind earlier) :
    event = .reservedCodeReused entry ∨ ∃ reserved, event = .reservedOidRepeated entry reserved := by
  rw [remarksBehind, if_neg fresh, List.mem_append, List.mem_ite_nil_right, List.mem_singleton,
    List.mem_map] at told
  rcases told with ⟨_, reused⟩ | ⟨reserved, _, repeated⟩
  · exact .inl reused
  · exact .inr ⟨reserved.code, repeated.symm⟩

theorem level_of_mem_remarksOn (told : event ∈ remarksOn entries) :
    event.level = .warn := by
  obtain ⟨⟨earlier, entry⟩, _, told⟩ := List.mem_flatMap.mp told
  change event ∈ entry.remarksBehind earlier at told
  by_cases repeated : entry.code ∈ earlier.map Entry.code
  · rw [Entry.remarksBehind, if_pos repeated, List.mem_singleton] at told
    rw [told]
    rfl
  · rcases Entry.remark_cases repeated told with rfl | ⟨_, rfl⟩ <;> rfl

namespace Table

theorem contains_accept (table : Table) (entry : Entry) (code : Code) :
    (table.accept entry).contains code = (decide (entry.code = code) || table.contains code) := by
  rw [accept]
  split
  · rename_i held
    by_cases same : entry.code = code
    · subst same
      simp [held]
    · simp [same]
  · exact contains_push table entry code

theorem contains_ofEntries_iff :
    (ofEntries entries).value.contains code = true ↔ code ∈ entries.map Entry.code := by
  induction entries using List.reverseRecOn with
  | nil => simp [ofEntries, empty, contains]
  | append_singleton earlier last ih =>
      rw [ofEntries_append_singleton, contains_accept, Bool.or_eq_true, ih, decide_eq_true_eq,
        List.map_append, List.mem_append, List.map_singleton, List.mem_singleton, or_comm,
        eq_comm]

theorem entries_ofEntries (entries : List Entry) :
    (ofEntries entries).value.entries.toList = firstOfEachCode entries := by
  induction entries using List.reverseRecOn with
  | nil => rfl
  | append_singleton earlier last ih =>
      rw [ofEntries_append_singleton, firstOfEachCode_append_singleton, ← ih]
      simp only [accept, contains_ofEntries_iff]
      split
      · rw [List.append_nil]
      · rw [entries_push]

theorem remarks_ofEntries (earlier : List Entry) (entry : Entry) :
    (ofEntries earlier).value.remarks entry = entry.remarksBehind earlier := by
  have reserved : Reserved.contains entry.code = true ↔ entry.code.toNat ≤ 0x26 := by
    rw [← Bool.not_eq_false, Reserved.contains_eq_false_iff, Nat.not_lt]
  have repeated : ((Reserved.code? entry.oid).map (Event.reservedOidRepeated entry)).toList =
      (Reserved.entries.filter fun reserved => reserved.oid = entry.oid).map fun reserved =>
        .reservedOidRepeated entry reserved.code := by
    rw [Option.toList_map, Reserved.toList_code?, List.map_map]
    rfl
  simp only [remarks, Entry.remarksBehind, contains_ofEntries_iff, ← Reserved.contains_eq_isSome,
    reserved, repeated]

theorem events_ofEntries (entries : List Entry) :
    (ofEntries entries).events = remarksOn entries := by
  induction entries using List.reverseRecOn with
  | nil => rfl
  | append_singleton earlier last ih =>
      rw [ofEntries_append_singleton, remarksOn_append_singleton, ← ih, remarks_ofEntries]

/-- The last entry repeats a code, so its reserved identifier is not remarked on. -/
example :
    let kept : Entry := ⟨8, ⟨[2, 5, 4]⟩⟩
    let dropped : Entry := ⟨8, ⟨[2, 5, 6]⟩⟩
    let load := ofEntries [kept, dropped]
    load.value.entries.toList = [kept] ∧
      load.events = [.reservedCodeReused kept, .reservedOidRepeated kept 0,
        .duplicateIgnored dropped] := by
  decide +kernel

end Table

end CompactOid
