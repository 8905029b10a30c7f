import CompactOid.Proofs.Oid.Canonical
import CompactOid.Proofs.Reserved
import CompactOid.Proofs.Table.Extension
import CompactOid.Proofs.Table.Reached
import Mathlib.Order.Bounds.Basic

namespace CompactOid.Table

/-! What is answered to an edit.

More than one thing may be wrong with an edit.  `Insertion` and `Assignment` say
which of them is answered and which entries there are afterwards, in terms of
the entries before.  One case of each applies to any edit, and its answer is the
one that the edit gets.
-/

/-- An entry has the code. -/
def Holds (table : Table) (code : Code) : Prop :=
  ∃ entry ∈ table.entries.toList, entry.code = code

variable {table : Table} {entry : Entry} {code : Code} {oid : Oid} {answer : Except Fault Code}
  {entries : List Entry}

theorem Coherent.not_holds_iff (coherent : table.Coherent) :
    ¬ table.Holds code ↔ table.contains code = false := by
  rw [Holds, ← coherent.contains_iff, Bool.not_eq_true]

theorem mem_customCodes : code ∈ customCodes ↔ 0x26 < code.toNat := by
  have first : Reserved.count = 0x27 := rfl
  have whole : UInt16.size = 0x10000 := rfl
  rw [customCodes, List.mem_map]
  refine ⟨fun listed => ?_, fun above => ?_⟩
  · obtain ⟨number, bounds, rfl⟩ := listed
    rw [List.mem_range'_1] at bounds
    rw [UInt16.toNat_ofNat_of_lt' (by omega)]
    omega
  · have bound : code.toNat < UInt16.size := code.toNat_lt
    exact ⟨code.toNat, List.mem_range'_1.mpr (by omega), UInt16.ofNat_toNat⟩

theorem sorted_customCodes : customCodes.Pairwise (· < ·) := by
  have first : Reserved.count = 0x27 := rfl
  have whole : UInt16.size = 0x10000 := rfl
  rw [customCodes, List.pairwise_map]
  refine List.Pairwise.imp_of_mem ?_ List.pairwise_lt_range'
  intro lower upper below above order
  rw [List.mem_range'_1] at below above
  rw [UInt16.lt_iff_toNat_lt, UInt16.toNat_ofNat_of_lt' (by omega),
    UInt16.toNat_ofNat_of_lt' (by omega)]
  exact order

theorem Coherent.freeCode?_eq_none_iff (coherent : table.Coherent) :
    table.freeCode? = none ↔ ∀ code : Code, 0x26 < code.toNat → table.Holds code := by
  simp only [freeCode?, List.find?_eq_none, mem_customCodes, Bool.not_eq_true',
    Bool.not_eq_false, Holds, ← coherent.contains_iff]

/-- The codes are searched upwards, so those before the one found are held and those behind it are
higher. -/
theorem Coherent.isLeast_of_freeCode? (coherent : table.Coherent)
    (found : table.freeCode? = some code) :
    IsLeast {code : Code | 0x26 < code.toNat ∧ ¬ table.Holds code} code := by
  simp only [coherent.not_holds_iff]
  obtain ⟨free, before, behind, split, held⟩ := List.find?_eq_some_iff_append.mp found
  have above : ∀ other : Code, 0x26 < other.toNat → other ∈ before ++ code :: behind := by
    intro other
    rw [← split]
    exact mem_customCodes.mpr
  have member : code ∈ customCodes := List.mem_of_find?_eq_some found
  have sorted := sorted_customCodes
  rw [split] at sorted
  refine ⟨⟨mem_customCodes.mp member, by simpa using free⟩, ?_⟩
  rintro other ⟨high, unheld⟩
  rcases List.mem_append.mp (above other high) with earlier | later
  · have contained := held other earlier
    rw [unheld] at contained
    contradiction
  · rcases List.mem_cons.mp later with same | later
    · exact UInt16.le_of_eq same.symm
    · exact UInt16.le_of_lt (List.rel_of_pairwise_cons (List.pairwise_append.mp sorted).2.1 later)

theorem Coherent.freeCode?_eq_some_iff (coherent : table.Coherent) :
    table.freeCode? = some code ↔
      IsLeast {code : Code | 0x26 < code.toNat ∧ ¬ table.Holds code} code := by
  refine ⟨coherent.isLeast_of_freeCode?, fun lowest => ?_⟩
  cases found : table.freeCode? with
  | none => exact absurd (coherent.freeCode?_eq_none_iff.mp found code lowest.1.1) lowest.1.2
  | some first =>
      have other := coherent.isLeast_of_freeCode? found
      rw [UInt16.le_antisymm (other.2 lowest.1) (lowest.2 other.1)]

/-- What is answered to an insertion, and the entries after it. -/
inductive Insertion (table : Table) (entry : Entry) : Except Fault Code → List Entry → Prop where
  | codeTaken (taken : entry.code.toNat ≤ 0x26 ∨ table.Holds entry.code) :
      Insertion table entry (.error (.codeTaken entry.code)) table.entries.toList
  | oidTaken {holder : Code} (above : 0x26 < entry.code.toNat) (fresh : ¬ table.Holds entry.code)
      (held : table.code? entry.oid = some holder) :
      Insertion table entry (.error (.codeTaken holder)) table.entries.toList
  | unencodable {rule : ArcRule} (above : 0x26 < entry.code.toNat)
      (fresh : ¬ table.Holds entry.code) (unknown : table.code? entry.oid = none)
      (broken : entry.oid.Breaks rule) :
      Insertion table entry (.error (.invalidArcs rule)) table.entries.toList
  | added (above : 0x26 < entry.code.toNat) (fresh : ¬ table.Holds entry.code)
      (unknown : table.code? entry.oid = none) (rooted : entry.oid.WellRooted) :
      Insertion table entry (.ok entry.code) (table.entries.toList ++ [entry])

/-- What is answered to an assignment, and the entries after it. -/
inductive Assignment (table : Table) (oid : Oid) : Except Fault Code → List Entry → Prop where
  | reserved {code : Code} (listed : ⟨code, oid⟩ ∈ Reserved.entries) :
      Assignment table oid (.ok code) table.entries.toList
  | known {code : Code} (unreserved : oid ∉ Reserved.entries.map Entry.oid)
      (held : table.code? oid = some code) : Assignment table oid (.ok code) table.entries.toList
  | exhausted (unreserved : oid ∉ Reserved.entries.map Entry.oid)
      (unknown : table.code? oid = none)
      (full : ∀ code : Code, 0x26 < code.toNat → table.Holds code) :
      Assignment table oid (.error .codesExhausted) table.entries.toList
  | unencodable {code : Code} {rule : ArcRule} (unreserved : oid ∉ Reserved.entries.map Entry.oid)
      (unknown : table.code? oid = none) (above : 0x26 < code.toNat) (free : ¬ table.Holds code)
      (broken : oid.Breaks rule) :
      Assignment table oid (.error (.invalidArcs rule)) table.entries.toList
  | added {code : Code} (unreserved : oid ∉ Reserved.entries.map Entry.oid)
      (unknown : table.code? oid = none)
      (lowest : IsLeast {code : Code | 0x26 < code.toNat ∧ ¬ table.Holds code} code)
      (rooted : oid.WellRooted) :
      Assignment table oid (.ok code) (table.entries.toList ++ [⟨code, oid⟩])

theorem insertion_exists (table : Table) (entry : Entry) :
    ∃ answer entries, table.Insertion entry answer entries := by
  by_cases taken : entry.code.toNat ≤ 0x26 ∨ table.Holds entry.code
  · exact ⟨_, _, .codeTaken taken⟩
  · obtain ⟨above, fresh⟩ := not_or.mp taken
    rw [Nat.not_le] at above
    cases known : table.code? entry.oid with
    | some holder => exact ⟨_, _, .oidTaken above fresh known⟩
    | none =>
        rcases entry.oid.wellRooted_or_breaks with rooted | ⟨rule, broken⟩
        · exact ⟨_, _, .added above fresh known rooted⟩
        · exact ⟨_, _, .unencodable above fresh known broken⟩

theorem Coherent.run_of_insertion (coherent : table.Coherent)
    (insertion : table.Insertion entry answer entries) :
    (Edit.run table (.insert entry)).1 = answer ∧
      (Edit.run table (.insert entry)).2.entries.toList = entries := by
  have untaken (above : 0x26 < entry.code.toNat) (fresh : ¬ table.Holds entry.code) :
      Reserved.contains entry.code = false ∧ table.contains entry.code = false :=
    ⟨Reserved.contains_eq_false_iff.mpr above, coherent.not_holds_iff.mp fresh⟩
  cases insertion with
  | codeTaken taken =>
      have refused : table.insert entry = (.error (.codeTaken entry.code), table) := by
        refine if_pos ?_
        rw [Bool.or_eq_true]
        refine taken.imp (fun low => ?_) coherent.contains_iff.mpr
        rw [← Bool.not_eq_false, Reserved.contains_eq_false_iff]
        exact Nat.not_le.mpr (Nat.lt_succ_of_le low)
      simp only [run_insert_of_refused refused, and_self]
  | @oidTaken holder above fresh held =>
      obtain ⟨unreserved, unheld⟩ := untaken above fresh
      have refused : table.insert entry = (.error (.codeTaken holder), table) := by
        simp [insert, unreserved, unheld, held]
      simp only [run_insert_of_refused refused, and_self]
  | @unencodable rule above fresh unknown broken =>
      obtain ⟨unreserved, unheld⟩ := untaken above fresh
      have refused : table.insert entry = (.error (.invalidArcs rule), table) := by
        simp [insert, unreserved, unheld, unknown, Oid.toBer_of_breaks broken]
      simp only [run_insert_of_refused refused, and_self]
  | added above fresh unknown rooted =>
      obtain ⟨unreserved, unheld⟩ := untaken above fresh
      have admitted : table.Admits entry :=
        ⟨unreserved, unheld, unknown, Oid.toBer_of_wellRooted rooted⟩
      simp only [run_insert_of_admits admitted, entries_push, and_self]

theorem Coherent.assignment_exists (coherent : table.Coherent) (oid : Oid) :
    ∃ answer entries, table.Assignment oid answer entries := by
  cases reserved : Reserved.code? oid with
  | some code => exact ⟨_, _, .reserved (Reserved.code?_eq_some_iff.mp reserved)⟩
  | none =>
      have unreserved := Reserved.code?_eq_none_iff.mp reserved
      cases known : table.code? oid with
      | some code => exact ⟨_, _, .known unreserved known⟩
      | none =>
          cases free : table.freeCode? with
          | none =>
              exact ⟨_, _, .exhausted unreserved known (coherent.freeCode?_eq_none_iff.mp free)⟩
          | some code =>
              have lowest := coherent.freeCode?_eq_some_iff.mp free
              rcases oid.wellRooted_or_breaks with rooted | ⟨rule, broken⟩
              · exact ⟨_, _, .added unreserved known lowest rooted⟩
              · exact ⟨_, _, .unencodable unreserved known lowest.1.1 lowest.1.2 broken⟩

/-- An identifier without a code is inserted under the lowest code that is free. -/
theorem run_assign_of_free (unreserved : oid ∉ Reserved.entries.map Entry.oid)
    (unknown : table.code? oid = none) (free : table.freeCode? = some code) :
    Edit.run table (.assign oid) = Edit.run table (.insert ⟨code, oid⟩) := by
  simp only [Edit.run, assign, Reserved.code?_eq_none_iff.mpr unreserved, unknown, free,
    Option.or_none]
  obtain ⟨outcome, after⟩ := table.insert ⟨code, oid⟩
  cases outcome <;> rfl

theorem Coherent.run_of_assignment (coherent : table.Coherent)
    (assignment : table.Assignment oid answer entries) :
    (Edit.run table (.assign oid)).1 = answer ∧
      (Edit.run table (.assign oid)).2.entries.toList = entries := by
  cases assignment with
  | reserved listed =>
      have held := Reserved.code?_eq_some_iff.mpr listed
      rw [Edit.run, assign_of_held (Option.or_eq_some_iff.mpr (.inl held))]
      exact ⟨rfl, rfl⟩
  | known unreserved held =>
      have absent := Reserved.code?_eq_none_iff.mpr unreserved
      rw [Edit.run, assign_of_held (Option.or_eq_some_iff.mpr (.inr ⟨absent, held⟩))]
      exact ⟨rfl, rfl⟩
  | exhausted unreserved unknown full =>
      have none := coherent.freeCode?_eq_none_iff.mpr full
      have absent := Reserved.code?_eq_none_iff.mpr unreserved
      simp [Edit.run, assign, absent, unknown, none]
  | @unencodable candidate rule unreserved unknown above free broken =>
      cases found : table.freeCode? with
      | none => exact absurd (coherent.freeCode?_eq_none_iff.mp found candidate above) free
      | some code =>
          obtain ⟨⟨above, fresh⟩, _⟩ := coherent.freeCode?_eq_some_iff.mp found
          rw [run_assign_of_free unreserved unknown found]
          exact coherent.run_of_insertion (.unencodable above fresh unknown broken)
  | @added code unreserved unknown lowest rooted =>
      have insertion : table.Insertion ⟨code, oid⟩ _ _ :=
        .added lowest.1.1 lowest.1.2 unknown rooted
      rw [run_assign_of_free unreserved unknown (coherent.freeCode?_eq_some_iff.mpr lowest)]
      exact coherent.run_of_insertion insertion

theorem Coherent.run_insert_iff (coherent : table.Coherent) :
    (Edit.run table (.insert entry)).1 = answer ∧
        (Edit.run table (.insert entry)).2.entries.toList = entries ↔
      table.Insertion entry answer entries := by
  refine ⟨fun ran => ?_, coherent.run_of_insertion⟩
  obtain ⟨_, _, insertion⟩ := table.insertion_exists entry
  obtain ⟨rfl, rfl⟩ := coherent.run_of_insertion insertion
  obtain ⟨rfl, rfl⟩ := ran
  exact insertion

theorem Coherent.run_assign_iff (coherent : table.Coherent) :
    (Edit.run table (.assign oid)).1 = answer ∧
        (Edit.run table (.assign oid)).2.entries.toList = entries ↔
      table.Assignment oid answer entries := by
  refine ⟨fun ran => ?_, coherent.run_of_assignment⟩
  obtain ⟨_, _, assignment⟩ := coherent.assignment_exists oid
  obtain ⟨rfl, rfl⟩ := coherent.run_of_assignment assignment
  obtain ⟨rfl, rfl⟩ := ran
  exact assignment

theorem Assignment.not_codeTaken (assignment : table.Assignment oid answer entries) (code : Code) :
    answer ≠ .error (.codeTaken code) := by
  cases assignment <;> simp

/-- What is answered to an edit and what it adds, whatever was loaded and edited before. -/
theorem edits_are_answered_by_precedence (loaded : List Entry) (edits : List Edit) (entry : Entry)
    (oid : Oid) (answer : Except Fault Code) (entries : List Entry) :
    let table := (ofEntries loaded).value.edit edits
    ((Edit.run table (.insert entry)).1 = answer ∧
        (Edit.run table (.insert entry)).2.entries.toList = entries ↔
      table.Insertion entry answer entries) ∧
    ((Edit.run table (.assign oid)).1 = answer ∧
        (Edit.run table (.assign oid)).2.entries.toList = entries ↔
      table.Assignment oid answer entries) ∧
    ∀ code, (Edit.run table (.assign oid)).1 ≠ .error (.codeTaken code) := by
  intro table
  have coherent : table.Coherent := (Coherent.ofEntries loaded).edit edits
  obtain ⟨_, _, assignment⟩ := coherent.assignment_exists oid
  refine ⟨coherent.run_insert_iff, coherent.run_assign_iff, ?_⟩
  rw [(coherent.run_of_assignment assignment).1]
  exact assignment.not_codeTaken

end CompactOid.Table
