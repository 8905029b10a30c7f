import CompactOid.Proofs.Oid.Groups

namespace CompactOid.Oid

/-! BER forms in the tree of identifiers.

The form of an identifier goes on where the form of the one above it ends.  No
group can be taken for a part of another one, and the group of the first two
arcs tells both, so the forms begin with each other only where the identifiers
do.
-/

variable {oid lead : Oid} {form front rest : Bytes}

/-- More arcs add their groups and leave those in front as they are. -/
theorem toBer_append (encoded : oid.toBer = .ok form) (more : List Arc) :
    (Oid.mk (oid.arcs ++ more)).toBer =
      .ok (form ++ more.flatMap fun arc => Base128.encode arc.toNat) := by
  obtain ⟨first, second, later, value, rfl, combined, rfl⟩ := toBer_eq_ok_iff.mp encoded
  have arcs : (first :: second :: later) ++ more = first :: second :: (later ++ more) := rfl
  rw [toBer_eq_ok_iff]
  exact ⟨first, second, later ++ more, value, congrArg Oid.mk arcs, combined,
    by rw [List.flatMap_append, List.append_assoc]⟩

theorem startsWith_iff_isPrefix : oid.startsWith lead.arcs = true ↔ lead.arcs <+: oid.arcs := by
  rw [startsWith, List.isPrefixOf_iff_prefix]

theorem arcValues_append {first : List Nat} (filled : first ≠ []) (later : List Nat) :
    arcValues (first ++ later) = arcValues first ++ later := by
  obtain ⟨value, values, rfl⟩ := List.exists_cons_of_ne_nil filled
  simp only [List.cons_append, arcValues, List.append_assoc]

/-- What goes on behind a whole form is read as further arcs. -/
theorem arcs_of_ofBer_append (read : ofBer front = .ok lead)
    (whole : ofBer (front ++ rest) = .ok oid) :
    oid.arcs.map UInt32.toNat = lead.arcs.map UInt32.toNat ++ Base128.values rest := by
  obtain ⟨formed, arcs⟩ := ofBer_eq_ok_iff.mp read
  obtain ⟨_, all⟩ := ofBer_eq_ok_iff.mp whole
  have filled : Base128.values front ≠ [] := by
    rw [Base128.values, ne_eq, List.map_eq_nil_iff]
    exact Base128.groups_ne_nil formed.filled
  rw [all, Base128.values_append formed.ends, arcValues_append filled, arcs]

theorem isPrefix_of_ofBer_append (read : ofBer front = .ok lead)
    (whole : ofBer (front ++ rest) = .ok oid) : lead.arcs <+: oid.arcs := by
  have divided := arcs_of_ofBer_append read whole
  have values : lead.arcs.map UInt32.toNat <+: oid.arcs.map UInt32.toNat := ⟨_, divided.symm⟩
  obtain ⟨arcs, front, same⟩ := List.prefix_map_iff.mp values
  rwa [(List.map_inj_right fun _ _ => UInt32.toNat.inj).mp same]

theorem isPrefix_toBer_iff (encoded : oid.toBer = .ok form) (encoded' : lead.toBer = .ok front) :
    front <+: form ↔ lead.arcs <+: oid.arcs := by
  constructor
  · intro above
    obtain ⟨rest, rfl⟩ := above
    exact isPrefix_of_ofBer_append (ofBer_of_toBer encoded') (ofBer_of_toBer encoded)
  · intro above
    obtain ⟨more, same⟩ := above
    have longer := toBer_append encoded' more
    rw [same, encoded, Except.ok.injEq] at longer
    rw [longer]
    exact List.prefix_append _ _

/-- Forms begin with each other exactly if the identifiers do.  One arc more is one group more, and
no two identifiers share a form. -/
theorem forms_mirror_the_tree {leadForm : Bytes} (encoded : oid.toBer = .ok form)
    (encoded' : lead.toBer = .ok leadForm) :
    (oid.startsWith lead.arcs = true ↔ leadForm <+: form) ∧
    (∀ arc, (oid.child arc).toBer = .ok (form ++ Base128.encode arc.toNat)) ∧
    (form = leadForm → oid = lead) := by
  have one : ∀ arc, (oid.child arc).toBer = .ok (form ++ Base128.encode arc.toNat) := by
    intro arc
    have longer := toBer_append encoded [arc]
    rwa [List.flatMap_singleton] at longer
  have distinct : form = leadForm → oid = lead := by
    intro same
    have read := ofBer_of_toBer encoded
    rw [same, ofBer_of_toBer encoded'] at read
    exact (Except.ok.inj read).symm
  rw [startsWith_iff_isPrefix, isPrefix_toBer_iff encoded encoded']
  exact ⟨Iff.rfl, one, distinct⟩

/-- The form above ends where a group ends, and the next arc takes up three bytes. -/
theorem form_begins_with_the_one_above :
    let oid : Oid := ⟨[2, 999, 16384]⟩
    let lead : Oid := ⟨[2, 999]⟩
    oid.toBer = .ok [0x88, 0x37, 0x81, 0x80, 0] ∧ lead.toBer = .ok [0x88, 0x37] ∧
      oid.startsWith lead.arcs = true ∧
      (oid.child 300).toBer = .ok ([0x88, 0x37, 0x81, 0x80, 0] ++ Base128.encode 300) := by
  intro oid lead
  have encoded : oid.toBer = .ok [0x88, 0x37, 0x81, 0x80, 0] := by cbv
  have encoded' : lead.toBer = .ok [0x88, 0x37] := by cbv
  obtain ⟨above, child, _⟩ := forms_mirror_the_tree encoded encoded'
  exact ⟨encoded, encoded', above.mpr ⟨[0x81, 0x80, 0], rfl⟩, child 300⟩

end CompactOid.Oid
