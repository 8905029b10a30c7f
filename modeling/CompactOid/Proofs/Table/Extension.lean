import CompactOid.Proofs.Reserved
import CompactOid.Proofs.Table.Growth

namespace CompactOid.Table

structure Extends (before after : Table) : Prop where
  oid?_kept : ∀ code oid, before.oid? code = some oid → after.oid? code = some oid
  code?_kept : ∀ oid code, before.code? oid = some code → after.code? oid = some code
  reserved_same : ∀ code, Reserved.contains code = true → after.oid? code = before.oid? code
  contains_same : ∀ code, Reserved.contains code = true → after.contains code = before.contains code

variable {table before middle after : Table} {entry : Entry} {code : Code} {oid : Oid}
  {edits : List Edit}

theorem Extends.refl (table : Table) : table.Extends table :=
  ⟨fun _ _ found => found, fun _ _ found => found, fun _ _ => rfl, fun _ _ => rfl⟩

theorem Extends.trans (left : before.Extends middle) (right : middle.Extends after) :
    before.Extends after where
  oid?_kept code oid found := right.oid?_kept code oid (left.oid?_kept code oid found)
  code?_kept oid code found := right.code?_kept oid code (left.code?_kept oid code found)
  reserved_same code reserved :=
    (right.reserved_same code reserved).trans (left.reserved_same code reserved)
  contains_same code reserved :=
    (right.contains_same code reserved).trans (left.contains_same code reserved)

theorem Admits.other_than_held (admitted : table.Admits entry) (held : table.contains code = true) :
    entry.code ≠ code := by
  rintro rfl
  rw [admitted.freshCode] at held
  contradiction

theorem Admits.other_than_reserved (admitted : table.Admits entry)
    (reserved : Reserved.contains code = true) : entry.code ≠ code := by
  rintro rfl
  rw [admitted.unreserved] at reserved
  contradiction

theorem code?_push_of_some (entry : Entry) (found : table.code? oid = some code) :
    (table.push entry).code? oid = some code := by
  rw [code?_push, found, Option.some_or]

theorem Extends.push (coherent : table.Coherent) (admitted : table.Admits entry) :
    table.Extends (table.push entry) where
  oid?_kept code oid found := by
    have held : table.contains code = true := by
      rw [coherent.contains_eq_isSome, found, Option.isSome_some]
    rw [coherent.oid?_push, if_neg (admitted.other_than_held held), found]
  code?_kept _ _ := code?_push_of_some entry
  reserved_same code reserved := by
    rw [coherent.oid?_push, if_neg (admitted.other_than_reserved reserved)]
  contains_same code reserved := by
    rw [contains_push, decide_eq_false (admitted.other_than_reserved reserved), Bool.false_or]

theorem Coherent.extends_edit (coherent : table.Coherent) (edits : List Edit) :
    table.Extends (table.edit edits) := by
  refine (edit_induction (motive := fun after => after.Coherent ∧ table.Extends after) edits
    ⟨coherent, .refl table⟩ ?_).2
  intro after entry kept admitted
  obtain ⟨coherent, grown⟩ := kept
  exact ⟨coherent.push admitted.freshCode, grown.trans (.push coherent admitted)⟩

/-- The edit does not ask for an entry of an identifier that has a reserved code. -/
def Edit.AvoidsReserved : Edit → Prop
  | .insert entry => entry.oid ∉ Reserved.entries.map Entry.oid
  | .assign _ => True

theorem Edit.Proposes.unreserved {change : Edit} (proposed : change.Proposes entry)
    (avoids : change.AvoidsReserved) : Reserved.code? entry.oid = none := by
  cases proposed with
  | insert => exact Reserved.code?_eq_none_iff.mpr avoids
  | assign _ unreserved => exact unreserved

/-- Edits that avoid reserved identifiers add no entry of one, so the table answers for it as
before. -/
theorem code?_edit_of_reserved (avoid : ∀ change ∈ edits, change.AvoidsReserved)
    (reserved : Reserved.code? oid = some code) : (table.edit edits).code? oid = table.code? oid := by
  apply proposal_induction (motive := fun after => after.code? oid = table.code? oid) edits rfl
  intro after change member entry kept proposed _
  have other : entry.oid ≠ oid := by
    rintro rfl
    rw [proposed.unreserved (avoid change member)] at reserved
    contradiction
  rw [code?_push, if_neg other, Option.or_none, kept]

theorem assign_of_held (held : (Reserved.code? oid).or (table.code? oid) = some code) :
    table.assign oid = (.ok code, table) := by
  simp only [assign, held]

theorem held_of_assign (assigned : table.assign oid = (.ok code, after)) :
    (Reserved.code? oid).or (after.code? oid) = some code := by
  rcases assign_cases assigned with ⟨reserved, rfl⟩ | ⟨unreserved, own, rfl⟩ |
    ⟨unreserved, admitted, rfl⟩
  · rw [reserved, Option.some_or]
  · rw [unreserved, Option.none_or, own]
  · rw [unreserved, Option.none_or, code?_push, admitted.freshOid, Option.none_or, if_pos rfl]

/-- An identifier is assigned its code once, whatever edits come in between. -/
theorem assign_again (assigned : table.assign oid = (.ok code, after)) (edits : List Edit) :
    (after.edit edits).assign oid = (.ok code, after.edit edits) := by
  apply assign_of_held
  rcases Option.or_eq_some_iff.mp (held_of_assign assigned) with reserved | ⟨unreserved, own⟩
  · rw [reserved, Option.some_or]
  · rw [unreserved, Option.none_or]
    exact edit_induction (motive := fun later => later.code? oid = some code) edits own
      fun _ entry kept _ => code?_push_of_some entry kept

theorem edit_append (table : Table) (earlier later : List Edit) :
    table.edit (earlier ++ later) = (table.edit earlier).edit later :=
  List.foldl_append

theorem run_assign_again (answered : (Edit.run table (.assign oid)).1 = .ok code)
    (later : List Edit) :
    Edit.run (table.edit (.assign oid :: later)) (.assign oid) =
      (.ok code, table.edit (.assign oid :: later)) := by
  have assigned : table.assign oid = (.ok code, (table.assign oid).2) := Prod.ext answered rfl
  exact assign_again assigned later

end CompactOid.Table
