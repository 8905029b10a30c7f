import CompactOid.Proofs.Reserved
import CompactOid.Proofs.Table.Extension
import CompactOid.View

namespace CompactOid

namespace View

variable {before after : Table} {policy : Policy} {code : Code} {oid : Oid} {reference : Reference}
  {text : String}

theorem oid?_of_extends (grown : before.Extends after)
    (found : (View.mk before policy).oid? code = some oid) :
    (View.mk after policy).oid? code = some oid := by
  cases policy with
  | customOverrides =>
      apply Option.or_eq_some_iff.mpr
      rcases Option.or_eq_some_iff.mp found with own | ⟨hidden, reserved⟩
      · exact .inl (grown.oid?_kept code oid own)
      · have same := grown.reserved_same code (Reserved.contains_of_oid? reserved)
        exact .inr ⟨same.trans hidden, reserved⟩
  | reservedWins =>
      apply Option.or_eq_some_iff.mpr
      rcases Option.or_eq_some_iff.mp found with reserved | ⟨hidden, own⟩
      · exact .inl reserved
      · exact .inr ⟨hidden, grown.oid?_kept code oid own⟩

theorem decode_of_extends (grown : before.Extends after)
    (decoded : (View.mk before policy).decode reference = .ok text) :
    (View.mk after policy).decode reference = .ok text := by
  obtain ⟨oid, expanded, rfl⟩ := map_eq_ok_iff.mp decoded
  apply map_eq_ok_iff.mpr
  refine ⟨oid, ?_, rfl⟩
  simp only [expand] at expanded ⊢
  split at expanded
  · contradiction
  · rename_i parent found
    rw [oid?_of_extends grown found]
    exact expanded

/-- The answers of the reserved half are asked for or hidden as before. -/
theorem code?_of_extends (grown : before.Extends after)
    (spared : ∀ oid code, Reserved.code? oid = some code → after.code? oid = before.code? oid)
    (found : (View.mk before policy).code? oid = some code) :
    (View.mk after policy).code? oid = some code := by
  cases policy with
  | customOverrides =>
      apply Option.or_eq_some_iff.mpr
      rcases Option.or_eq_some_iff.mp found with own | ⟨absent, reserved⟩
      · exact .inl (grown.code?_kept oid code own)
      · obtain ⟨held, visible⟩ := Option.filter_eq_some_iff.mp reserved
        have same := grown.contains_same code
          (Reserved.contains_of_oid? (Reserved.oid?_of_code? held))
        refine .inr ⟨(spared oid code held).trans absent, ?_⟩
        exact Option.filter_eq_some_iff.mpr ⟨held, by rw [same]; exact visible⟩
  | reservedWins =>
      apply Option.or_eq_some_iff.mpr
      rcases Option.or_eq_some_iff.mp found with reserved | ⟨absent, own⟩
      · exact .inl reserved
      · obtain ⟨held, visible⟩ := Option.filter_eq_some_iff.mp own
        refine .inr ⟨absent, ?_⟩
        exact Option.filter_eq_some_iff.mpr ⟨grown.code?_kept oid code held, visible⟩

theorem encode_of_extends (grown : before.Extends after)
    (spared : ∀ oid code, Reserved.code? oid = some code → after.code? oid = before.code? oid)
    (encoded : (View.mk before policy).encode text = .ok reference) :
    (View.mk after policy).encode text = .ok reference := by
  obtain ⟨oid, parsed, compressed⟩ := bind_eq_ok_iff.mp encoded
  apply bind_eq_ok_iff.mpr
  refine ⟨oid, parsed, ?_⟩
  simp only [compress] at compressed ⊢
  split at compressed
  · contradiction
  · split at compressed
    · contradiction
    · rename_i parent last _ small
      split at compressed
      · contradiction
      · rename_i code found
        rw [if_neg small, code?_of_extends grown spared found]
        exact compressed

/-- Under either policy edits change no reference that could be decoded.  If they ask for no entry
of a reserved identifier they change none that a text has either, and an identifier that was
assigned a code is assigned the same code again, without another entry. -/
theorem references_survive_edits (entries : List Entry) (edits : List Table.Edit)
    (policy : Policy) :
    let start := (Table.ofEntries entries).value
    let before : View := ⟨start, policy⟩
    let after : View := ⟨start.edit edits, policy⟩
    (∀ reference text, before.decode reference = .ok text → after.decode reference = .ok text) ∧
    ((∀ change ∈ edits, change.AvoidsReserved) →
      ∀ text reference, before.encode text = .ok reference → after.encode text = .ok reference) ∧
    ∀ earlier oid later code, edits = earlier ++ .assign oid :: later →
      (Table.Edit.run (start.edit earlier) (.assign oid)).1 = .ok code →
      Table.Edit.run (start.edit edits) (.assign oid) = (.ok code, start.edit edits) := by
  intro start before after
  have grown : start.Extends (start.edit edits) := (Table.Coherent.ofEntries entries).extends_edit edits
  refine ⟨fun _ _ decoded => decode_of_extends grown decoded, fun avoid _ _ encoded => ?_, ?_⟩
  · have spared : ∀ oid code, Reserved.code? oid = some code →
        (start.edit edits).code? oid = start.code? oid :=
      fun _ _ reserved => Table.code?_edit_of_reserved avoid reserved
    exact encode_of_extends grown spared encoded
  · rintro earlier oid later code rfl answered
    rw [Table.edit_append]
    exact Table.run_assign_again answered later

/-- The table holds a reserved code and a reserved identifier.  The first insertion is refused. -/
theorem reference_survives_colliding_load :
    let entries : List Entry := [⟨8, ⟨[1, 2, 3]⟩⟩, ⟨0x7000, ⟨[2, 5, 4]⟩⟩]
    let edits : List Table.Edit :=
      [.assign ⟨[1, 1]⟩, .insert ⟨8, ⟨[1, 3]⟩⟩, .insert ⟨0x7001, ⟨[1, 3]⟩⟩]
    let start := (Table.ofEntries entries).value
    let after : View := ⟨start.edit edits, .reservedWins⟩
    after.decode ⟨0x70000003⟩ = .ok "2.5.4.3" ∧ after.encode "2.5.4.3" = .ok ⟨3⟩ ∧
      Table.Edit.run (start.edit edits) (.assign ⟨[1, 1]⟩) = (.ok 39, start.edit edits) := by
  intro entries edits start after
  let before : View := ⟨start, .reservedWins⟩
  have decoded : before.decode ⟨0x70000003⟩ = .ok "2.5.4.3" := by decide +kernel
  have encoded : before.encode "2.5.4.3" = .ok ⟨3⟩ := by decide +kernel
  have answered : (Table.Edit.run (start.edit []) (.assign ⟨[1, 1]⟩)).1 = .ok 39 := by
    decide +kernel
  have avoid : ∀ change ∈ edits, change.AvoidsReserved := by
    have unreserved : ⟨[1, 3]⟩ ∉ Reserved.entries.map Entry.oid := by decide
    exact List.forall_mem_cons.mpr ⟨trivial, List.forall_mem_cons.mpr
      ⟨unreserved, List.forall_mem_singleton.mpr unreserved⟩⟩
  obtain ⟨decodes, encodes, again⟩ := references_survive_edits entries edits .reservedWins
  exact ⟨decodes _ _ decoded, encodes avoid _ _ encoded, again [] _ _ _ rfl answered⟩

end View

end CompactOid
