import CompactOid.Proofs.Oid.Dotted
import CompactOid.Proofs.View.Lookup

namespace CompactOid

theorem Oid.child_of_splitLast? {oid parent : Oid} {last : Arc}
    (parts : oid.splitLast? = some (parent, last)) : parent.child last = oid := by
  obtain ⟨arc, found, same⟩ := Option.map_eq_some_iff.mp parts
  cases same
  rw [Oid.child, List.dropLast_append_getLast? last found]

namespace View

variable {view : View} {oid : Oid} {reference : Reference}

/-- The item and the code that a reference was put together from lead back to its identifier. -/
theorem expand_of_compress (coherent : view.custom.Coherent)
    (compressed : view.compress oid = .ok reference) : view.expand reference = .ok oid := by
  simp only [compress] at compressed
  split at compressed
  · contradiction
  · rename_i parent last parts
    split at compressed
    · contradiction
    · rename_i small
      split at compressed
      · contradiction
      · rename_i code found
        cases compressed
        have lossless : last.toUInt16.toUInt32 = last := by
          apply UInt32.toNat.inj
          simp only [UInt16.toNat_toUInt32, UInt32.toNat_toUInt16]
          exact Nat.mod_eq_of_lt (Nat.lt_of_not_le small)
        simp only [expand, Reference.code_ofParts, Reference.item_ofParts,
          oid?_of_code? coherent found, lossless, Oid.child_of_splitLast? parts]

theorem decode_after_encode (entries : List Entry) (edits : List Table.Edit) (policy : Policy)
    (text : String) (reference : Reference)
    (encoded : (View.mk ((Table.ofEntries entries).value.edit edits) policy).encode text =
      .ok reference) :
    (View.mk ((Table.ofEntries entries).value.edit edits) policy).decode reference = .ok text := by
  have coherent := (Table.Coherent.ofEntries entries).edit edits
  obtain ⟨oid, parsed, compressed⟩ := bind_eq_ok_iff.mp encoded
  rw [decode, expand_of_compress coherent compressed]
  exact congrArg Except.ok (Oid.text_of_parse parsed)

/-- The loaded entries collide with reserved ones in a code and in an identifier. -/
theorem decode_after_encode_colliding :
    let table := (Table.ofEntries
      [⟨8, ⟨[1, 2, 3]⟩⟩, ⟨0x7000, ⟨[2, 5, 4]⟩⟩, ⟨0x7000, ⟨[1, 1]⟩⟩]).value.edit [.assign ⟨[1, 1]⟩]
    let view : View := ⟨table, .customOverrides⟩
    view.encode "2.5.4.3" = .ok ⟨0x70000003⟩ ∧ view.decode ⟨0x70000003⟩ = .ok "2.5.4.3" := by
  intro table view
  have encoded : view.encode "2.5.4.3" = .ok ⟨0x70000003⟩ := by decide +kernel
  exact ⟨encoded, decode_after_encode _ _ _ _ _ encoded⟩

end View

end CompactOid
