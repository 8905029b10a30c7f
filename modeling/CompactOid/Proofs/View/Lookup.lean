import CompactOid.Proofs.Reference
import CompactOid.Proofs.Reserved
import CompactOid.Proofs.Table.Growth
import CompactOid.View

namespace CompactOid

/-! Looking up codes and identifiers in a view.

What `View.code?` answers always leads back, but it does not always answer: it
stops at the first custom entry of an identifier, also when the reserved half
has taken over the code of that entry and a later entry of the identifier is
still to be seen.
-/

/-- The first entry of the identifier has a reserved code, another one has not. -/
def Table.Eclipses (table : Table) (oid : Oid) : Prop :=
  (∃ first, table.entries.toList.find? (fun entry => entry.oid = oid) = some first ∧
    Reserved.contains first.code = true) ∧
  ∃ other ∈ table.entries.toList, other.oid = oid ∧ Reserved.contains other.code = false

theorem Table.Coherent.eclipses_iff {table : Table} {oid : Oid} (coherent : table.Coherent) :
    table.Eclipses oid ↔
      (∃ first, table.code? oid = some first ∧ Reserved.contains first = true) ∧
      ∃ code, Reserved.contains code = false ∧ table.oid? code = some oid := by
  refine and_congr ?_ ?_
  · rw [coherent.code?_eq]
    refine ⟨fun entered => ?_, fun answered => ?_⟩
    · obtain ⟨first, search, reserved⟩ := entered
      exact ⟨first.code, by rw [search]; rfl, reserved⟩
    · obtain ⟨code, search, reserved⟩ := answered
      obtain ⟨first, found, rfl⟩ := Option.map_eq_some_iff.mp search
      exact ⟨first, found, reserved⟩
  · refine ⟨fun entered => ?_, fun answered => ?_⟩
    · obtain ⟨other, member, rfl, visible⟩ := entered
      exact ⟨other.code, visible, coherent.oid?_of_mem member⟩
    · obtain ⟨code, visible, own⟩ := answered
      exact ⟨⟨code, oid⟩, coherent.mem_of_oid? own, rfl, visible⟩

namespace View

variable {view : View} {code : Code} {oid : Oid}

/-- Soundness under either policy, also where entries collide. -/
theorem oid?_of_code? (coherent : view.custom.Coherent) (found : view.code? oid = some code) :
    view.oid? code = some oid := by
  obtain ⟨table, policy⟩ := view
  cases policy with
  | customOverrides =>
      rcases Option.or_eq_some_iff.mp found with own | ⟨_, reserved⟩
      · simp [View.oid?, coherent.oid?_of_code? own]
      · obtain ⟨held, visible⟩ := Option.filter_eq_some_iff.mp reserved
        have hidden : table.oid? code = none :=
          coherent.oid?_eq_none_iff.mpr (by simpa using visible)
        simp [View.oid?, hidden, Reserved.oid?_of_code? held]
  | reservedWins =>
      rcases Option.or_eq_some_iff.mp found with reserved | ⟨_, own⟩
      · simp [View.oid?, Reserved.oid?_of_code? reserved]
      · obtain ⟨held, visible⟩ := Option.filter_eq_some_iff.mp own
        have hidden : Reserved.oid? code = none :=
          Reserved.oid?_eq_none_iff.mpr (by simpa using visible)
        simp [View.oid?, hidden, coherent.oid?_of_code? held]

theorem customOverrides_code?_exists {table : Table} (coherent : table.Coherent)
    (found : (View.mk table .customOverrides).oid? code = some oid) :
    ∃ answer, (View.mk table .customOverrides).code? oid = some answer := by
  rcases Option.or_eq_some_iff.mp found with own | ⟨hidden, reserved⟩
  · obtain ⟨first, answered⟩ := coherent.code?_exists own
    exact ⟨first, by simp [View.code?, answered]⟩
  · have visible : table.contains code = false := coherent.oid?_eq_none_iff.mp hidden
    cases own : table.code? oid with
    | some first => exact ⟨first, by simp [View.code?, own]⟩
    | none => exact ⟨code, by simp [View.code?, own, Reserved.code?_of_oid? reserved, visible]⟩

theorem reservedWins_code?_eq_none_iff {table : Table} :
    (View.mk table .reservedWins).code? oid = none ↔
      Reserved.code? oid = none ∧
        ∀ first, table.code? oid = some first → Reserved.contains first = true := by
  simp [View.code?, Option.or_eq_none_iff, Option.filter_eq_none_iff]

theorem reservedWins_oid?_exists_iff {table : Table} (unreserved : Reserved.code? oid = none) :
    (∃ code, (View.mk table .reservedWins).oid? code = some oid) ↔
      ∃ code, Reserved.contains code = false ∧ table.oid? code = some oid := by
  refine ⟨fun resolved => ?_, fun entered => ?_⟩
  · obtain ⟨code, found⟩ := resolved
    rcases Option.or_eq_some_iff.mp found with reserved | ⟨hidden, own⟩
    · rw [Reserved.code?_of_oid? reserved] at unreserved
      contradiction
    · exact ⟨code, Reserved.oid?_eq_none_iff.mp hidden, own⟩
  · obtain ⟨code, visible, own⟩ := entered
    exact ⟨code, by simp [View.oid?, Reserved.oid?_eq_none_iff.mpr visible, own]⟩

/-- Whatever was loaded and edited, an identifier that some code stands for is answered with a
code, except one whose first entry the reserved half has taken over. -/
theorem code?_complete_iff_not_eclipsed (entries : List Entry) (edits : List Table.Edit)
    (policy : Policy) (oid : Oid) :
    let table := (Table.ofEntries entries).value.edit edits
    let view : View := ⟨table, policy⟩
    (view.code? oid = none → ∀ code, view.oid? code ≠ some oid) ↔
      ¬ (policy = .reservedWins ∧ Reserved.code? oid = none ∧ table.Eclipses oid) := by
  intro table view
  have coherent : table.Coherent := (Table.Coherent.ofEntries entries).edit edits
  cases policy with
  | customOverrides =>
      refine iff_of_true (fun absent code found => ?_) (fun ⟨wins, _⟩ => by contradiction)
      obtain ⟨answer, answered⟩ := customOverrides_code?_exists coherent found
      rw [absent] at answered
      contradiction
  | reservedWins =>
      rw [coherent.eclipses_iff, reservedWins_code?_eq_none_iff]
      refine ⟨fun complete eclipsed => ?_, fun bright silent => ?_⟩
      · obtain ⟨_, unreserved, ⟨first, search, reserved⟩, other⟩ := eclipsed
        have absent : ∀ code, table.code? oid = some code → Reserved.contains code = true := by
          intro code found
          rw [search, Option.some.injEq] at found
          rwa [← found]
        obtain ⟨code, found⟩ := (reservedWins_oid?_exists_iff unreserved).mpr other
        exact complete ⟨unreserved, absent⟩ code found
      · intro code found
        obtain ⟨unreserved, absent⟩ := silent
        obtain ⟨code, visible, own⟩ := (reservedWins_oid?_exists_iff unreserved).mp ⟨code, found⟩
        obtain ⟨first, search⟩ := coherent.code?_exists own
        exact bright ⟨rfl, unreserved, ⟨first, search, absent first search⟩, code, visible, own⟩

/-- Code 8 stands for 2.5.5 here and hides that 1.2.3 has the code 0x7000 as well. -/
theorem eclipsed_oid_is_not_answered :
    let view : View :=
      ⟨(Table.ofEntries [⟨8, ⟨[1, 2, 3]⟩⟩, ⟨0x7000, ⟨[1, 2, 3]⟩⟩]).value.edit [], .reservedWins⟩
    ¬ (view.code? ⟨[1, 2, 3]⟩ = none → ∀ code, view.oid? code ≠ some ⟨[1, 2, 3]⟩) := by
  intro view complete
  have absent : view.code? ⟨[1, 2, 3]⟩ = none := by decide
  have found : view.oid? 0x7000 = some ⟨[1, 2, 3]⟩ := by decide
  exact complete absent 0x7000 found

end View

end CompactOid
