import CompactOid.Proofs.Outcome
import CompactOid.Proofs.Table.Coherence
import CompactOid.Table.Edit

namespace CompactOid.Table

/-! How tables grow.

Entries are only ever pushed behind the others.  A load pushes an entry if its
code is new, an edit pushes one only if the table admits it.  What a single
push keeps is therefore kept by whole loads and by whole runs of edits.
-/

variable {table after : Table} {entry : Entry} {code : Code} {oid : Oid} {change : Edit}
  {fault : Fault} {motive : Table → Prop}

theorem ofEntries_value (entries : List Entry) :
    (ofEntries entries).value = entries.foldl accept empty :=
  (List.foldl_hom Prod.fst fun _ _ => rfl).symm

/-- What holds of the empty table and is kept by each new code holds of every load. -/
theorem ofEntries_induction (entries : List Entry) (start : motive empty)
    (grow : ∀ table, ∀ entry ∈ entries, motive table → table.contains entry.code = false →
      motive (table.push entry)) :
    motive (ofEntries entries).value := by
  rw [ofEntries_value]
  -- A load starts with the empty table, but its tail starts with whatever came before.
  generalize empty = table at start
  induction entries generalizing table with
  | nil => exact start
  | cons entry later ih =>
      rw [List.foldl_cons]
      apply ih (fun table other member => grow table other (List.mem_cons_of_mem _ member))
      simp only [accept]
      split
      · exact start
      · rename_i fresh
        exact grow table entry List.mem_cons_self start (by simpa using fresh)

/-- A load keeps some of the entries, in their order. -/
theorem ofEntries_sublist (entries : List Entry) :
    ((ofEntries entries).value.entries.toList).Sublist entries := by
  have kept : ∀ table : Table, ((entries.foldl accept table).entries.toList).Sublist
      (table.entries.toList ++ entries) := by
    induction entries with
    | nil => simp
    | cons entry later ih =>
        intro table
        have first : ((table.accept entry).entries.toList).Sublist
            (table.entries.toList ++ [entry]) := by
          rw [accept]
          split
          · exact List.sublist_append_left _ _
          · rw [entries_push]
        have rest := (ih (table.accept entry)).trans (first.append_right later)
        rwa [List.append_assoc] at rest
  rw [ofEntries_value]
  exact kept empty

/-- Repeated codes are dropped only after the whole map was read. -/
theorem ofMap_eq_ok_iff {config : Config} {data : Bytes} :
    (ofMap config data).value = .ok table ↔
      ∃ entries, (PrefixMap.read config data).value = .ok entries ∧
        (ofEntries entries).value = table := by
  simp only [ofMap, Logged.andThen_eq_ok_iff, Logged.map, Except.ok.injEq]

structure Admits (table : Table) (entry : Entry) : Prop where
  unreserved : Reserved.contains entry.code = false
  freshCode : table.contains entry.code = false
  freshOid : table.code? entry.oid = none
  encodable : ∃ body, entry.oid.toBer = .ok body

/-- An insertion either pushes an entry that the table admits or leaves the table as it is. -/
theorem insert_cases (table : Table) (entry : Entry) :
    (table.Admits entry ∧ table.insert entry = (.ok (), table.push entry)) ∨
      ¬ table.Admits entry ∧ ∃ fault, table.insert entry = (.error fault, table) := by
  rw [insert]
  split
  · rename_i taken
    refine .inr ⟨fun admitted => ?_, _, rfl⟩
    rw [admitted.unreserved, admitted.freshCode] at taken
    contradiction
  · rename_i untaken
    rw [Bool.or_eq_true, not_or, Bool.not_eq_true, Bool.not_eq_true] at untaken
    split
    · rename_i holder held
      refine .inr ⟨fun admitted => ?_, _, rfl⟩
      rw [admitted.freshOid] at held
      contradiction
    · rename_i freshOid
      split
      · rename_i rule broken
        refine .inr ⟨fun admitted => ?_, _, rfl⟩
        obtain ⟨body, encoded⟩ := admitted.encodable
        rw [broken] at encoded
        contradiction
      · rename_i body encoded
        exact .inl ⟨⟨untaken.1, untaken.2, freshOid, body, encoded⟩, rfl⟩

theorem insert_eq_ok_iff :
    table.insert entry = (.ok (), after) ↔ table.Admits entry ∧ after = table.push entry := by
  rcases table.insert_cases entry with ⟨admitted, inserted⟩ | ⟨refused, fault, stayed⟩
  · simp [inserted, admitted, eq_comm]
  · simp [stayed, refused]

theorem insert_of_refused (refused : table.insert entry = (.error fault, after)) :
    after = table := by
  rcases table.insert_cases entry with ⟨_, inserted⟩ | ⟨_, _, stayed⟩
  · rw [inserted] at refused
    cases refused
  · rw [stayed] at refused
    cases refused
    rfl

/-- The three ways to a code: from the reserved entries, from the table, or by a new entry. -/
theorem assign_cases (assigned : table.assign oid = (.ok code, after)) :
    (Reserved.code? oid = some code ∧ after = table) ∨
    (Reserved.code? oid = none ∧ table.code? oid = some code ∧ after = table) ∨
    (Reserved.code? oid = none ∧ table.Admits ⟨code, oid⟩ ∧ after = table.push ⟨code, oid⟩) := by
  rw [assign] at assigned
  split at assigned
  · rename_i held known
    cases assigned
    rcases Option.or_eq_some_iff.mp known with reserved | ⟨unreserved, own⟩
    · exact .inl ⟨reserved, rfl⟩
    · exact .inr (.inl ⟨unreserved, own, rfl⟩)
  · rename_i unknown
    split at assigned
    · cases assigned
    · rename_i fresh _
      split at assigned
      · cases assigned
      · rename_i grown inserted
        cases assigned
        obtain ⟨admitted, pushed⟩ := insert_eq_ok_iff.mp inserted
        exact .inr (.inr ⟨(Option.or_eq_none_iff.mp unknown).1, admitted, pushed⟩)

theorem assign_of_refused (refused : table.assign oid = (.error fault, after)) :
    after = table := by
  rw [assign] at refused
  split at refused
  · cases refused
  · split at refused
    · cases refused
      rfl
    · split at refused
      · rename_i stopped
        cases refused
        exact insert_of_refused stopped
      · cases refused

/-- The edit asks for the entry.  An assignment leaves the code open, and asks for nothing if the
identifier has a reserved code. -/
inductive Edit.Proposes : Edit → Entry → Prop where
  | insert (entry : Entry) : Proposes (.insert entry) entry
  | assign {oid : Oid} (code : Code) (unreserved : Reserved.code? oid = none) :
      Proposes (.assign oid) ⟨code, oid⟩

theorem run_insert_of_admits (admitted : table.Admits entry) :
    Edit.run table (.insert entry) = (.ok entry.code, table.push entry) := by
  rw [Edit.run, insert_eq_ok_iff.mpr ⟨admitted, rfl⟩]
  rfl

theorem run_insert_of_refused (refused : table.insert entry = (.error fault, after)) :
    Edit.run table (.insert entry) = (.error fault, after) := by
  rw [Edit.run, refused]
  rfl

theorem run_eq_ok_cases (ran : change.run table = (.ok code, after)) :
    after = table ∨
      ∃ entry, change.Proposes entry ∧ table.Admits entry ∧ after = table.push entry := by
  cases change with
  | insert entry =>
      rcases table.insert_cases entry with ⟨admitted, _⟩ | ⟨_, fault, stayed⟩
      · rw [run_insert_of_admits admitted] at ran
        cases ran
        exact .inr ⟨entry, .insert entry, admitted, rfl⟩
      · rw [run_insert_of_refused stayed] at ran
        cases ran
  | assign oid =>
      rcases assign_cases ran with ⟨_, same⟩ | ⟨_, _, same⟩ | ⟨unreserved, admitted, grown⟩
      · exact .inl same
      · exact .inl same
      · exact .inr ⟨⟨code, oid⟩, .assign code unreserved, admitted, grown⟩

theorem run_of_refused (refused : (change.run table).1 = .error fault) :
    (change.run table).2 = table := by
  cases change with
  | insert entry =>
      rcases table.insert_cases entry with ⟨admitted, _⟩ | ⟨_, _, stayed⟩
      · rw [run_insert_of_admits admitted] at refused
        cases refused
      · rw [run_insert_of_refused stayed]
  | assign oid => exact assign_of_refused (Prod.ext refused rfl)

theorem run_cases (table : Table) (change : Edit) :
    (change.run table).2 = table ∨
      ∃ entry, change.Proposes entry ∧ table.Admits entry ∧
        (change.run table).2 = table.push entry := by
  cases answer : (change.run table).1 with
  | ok code => exact run_eq_ok_cases (Prod.ext answer rfl)
  | error fault => exact .inl (run_of_refused answer)

/-- What each entry keeps that an edit asks for and the table admits is kept by the whole run,
refused edits included. -/
theorem proposal_induction (edits : List Edit) (start : motive table)
    (grow : ∀ table, ∀ change ∈ edits, ∀ entry, motive table → change.Proposes entry →
      table.Admits entry → motive (table.push entry)) :
    motive (table.edit edits) := by
  apply List.foldlRecOn edits _ start
  intro table kept change member
  rcases run_cases table change with same | ⟨entry, proposed, admitted, grown⟩
  · rw [same]
    exact kept
  · rw [grown]
    exact grow table change member entry kept proposed admitted

theorem edit_induction (edits : List Edit) (start : motive table)
    (grow : ∀ table entry, motive table → table.Admits entry → motive (table.push entry)) :
    motive (table.edit edits) :=
  proposal_induction edits start fun table _ _ entry kept _ admitted =>
    grow table entry kept admitted

theorem Coherent.ofEntries (entries : List Entry) : (Table.ofEntries entries).value.Coherent :=
  ofEntries_induction entries .empty fun _ _ _ coherent fresh => coherent.push fresh

theorem Coherent.edit (coherent : table.Coherent) (edits : List Edit) :
    (table.edit edits).Coherent :=
  edit_induction edits coherent fun _ _ kept admitted => kept.push admitted.freshCode

end CompactOid.Table
