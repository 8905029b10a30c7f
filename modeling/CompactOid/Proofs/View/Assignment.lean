import CompactOid.Proofs.View.Lookup

namespace CompactOid

namespace View

variable {view : View} {code : Code} {oid : Oid}

/-- Both halves have the code, for different identifiers, and this one is in the half asked last. -/
def Overrules (view : View) (code : Code) (oid : Oid) : Prop :=
  ∃ own reserved, view.custom.oid? code = some own ∧ Reserved.oid? code = some reserved ∧
    own ≠ reserved ∧ oid = match view.policy with
      | .customOverrides => reserved
      | .reservedWins => own

theorem oid?_eq_some_iff_not_overruled
    (held : view.custom.oid? code = some oid ∨ Reserved.oid? code = some oid) :
    view.oid? code = some oid ↔ ¬ view.Overrules code oid := by
  obtain ⟨table, policy⟩ := view
  cases own : table.oid? code with
  | none =>
      have reserved : Reserved.oid? code = some oid := by simpa [own] using held
      cases policy <;> simp [View.oid?, Overrules, own, reserved]
  | some first =>
      cases other : Reserved.oid? code with
      | none =>
          have same : first = oid := by simpa [own, other] using held
          cases policy <;> simp [View.oid?, Overrules, own, other, same]
      | some second =>
          have either : first = oid ∨ second = oid := by simpa [own, other] using held
          cases policy <;> rcases either with rfl | rfl <;>
            simp [View.oid?, Overrules, own, other, eq_comm]

theorem expand_ofParts (found : view.oid? code = some oid) (item : UInt16) :
    view.expand (.ofParts code item) = .ok (oid.child item.toUInt32) := by
  simp [expand, found]

end View

namespace Table

theorem Coherent.held_of_assign {table after : Table} {code : Code} {oid : Oid}
    (coherent : table.Coherent) (assigned : table.assign oid = (.ok code, after)) :
    after.oid? code = some oid ∨ Reserved.oid? code = some oid := by
  obtain ⟨reserved, rfl⟩ | ⟨_, own, rfl⟩ | ⟨_, _, rfl⟩ := assign_cases assigned
  · exact .inr (Reserved.oid?_of_code? reserved)
  · exact .inl (coherent.oid?_of_code? own)
  · exact .inl (by rw [coherent.oid?_push, if_pos rfl])

end Table

namespace View

/-- Whatever was loaded and edited before, a code handed out for an identifier stands for it, and
references built on the code stand for its children, unless the other half overrules it. -/
theorem assigned_code_resolves_iff_not_overruled (entries : List Entry) (edits : List Table.Edit)
    (policy : Policy) (oid : Oid) (code : Code) (after : Table)
    (assigned : ((Table.ofEntries entries).value.edit edits).assign oid = (.ok code, after)) :
    let view : View := ⟨after, policy⟩
    (view.oid? code = some oid ∧
      ∀ item, view.expand (.ofParts code item) = .ok (oid.child item.toUInt32)) ↔
      ¬ view.Overrules code oid := by
  intro view
  have coherent := (Table.Coherent.ofEntries entries).edit edits
  have held : view.custom.oid? code = some oid ∨ Reserved.oid? code = some oid :=
    coherent.held_of_assign assigned
  rw [← oid?_eq_some_iff_not_overruled held]
  exact ⟨fun resolves => resolves.1, fun found => ⟨found, expand_ofParts found⟩⟩

/-- Code 8 is reserved for 2.5.5 and assigned for it, but a loaded entry has the code for 1.2.3. -/
theorem assigned_code_may_be_overruled :
    let table := (Table.ofEntries [⟨8, ⟨[1, 2, 3]⟩⟩]).value.edit []
    ∃ code after, table.assign ⟨[2, 5, 5]⟩ = (.ok code, after) ∧
      (View.mk after .customOverrides).oid? code ≠ some ⟨[2, 5, 5]⟩ :=
  ⟨8, _, rfl, by decide⟩

theorem assigned_fresh_code_resolves :
    let table := (Table.ofEntries [⟨8, ⟨[1, 2, 3]⟩⟩, ⟨39, ⟨[2, 5, 4]⟩⟩]).value.edit
      [.insert ⟨40, ⟨[2, 5, 4]⟩⟩, .assign ⟨[1, 2, 4]⟩]
    ∃ after, table.assign ⟨[1, 2, 5]⟩ = (.ok 41, after) ∧
      (View.mk after .reservedWins).oid? 41 = some ⟨[1, 2, 5]⟩ := by
  intro table
  have assigned : table.assign ⟨[1, 2, 5]⟩ = (.ok 41, table.push ⟨41, ⟨[1, 2, 5]⟩⟩) := by rfl
  have agrees := assigned_code_resolves_iff_not_overruled _ _ .reservedWins _ _ _ assigned
  have unreserved : Reserved.oid? 41 = none := by decide
  refine ⟨_, assigned, (agrees.mpr ?_).1⟩
  intro overruled
  obtain ⟨_, _, _, found, _⟩ := overruled
  rw [unreserved] at found
  contradiction

end View

end CompactOid
