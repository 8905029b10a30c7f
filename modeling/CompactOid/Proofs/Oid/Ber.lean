import CompactOid.Oid.Ber
import CompactOid.Proofs.Bytes.Base128
import CompactOid.Proofs.Outcome

namespace CompactOid.Oid

variable {oid : Oid} {data : Bytes} {cursor after : Cursor} {value : Nat} {arc : Arc}

theorem narrow_eq_ok_iff {offset : Nat} :
    narrow value offset = .ok arc ↔ arc.toNat = value := by
  refine ⟨fun narrowed => ?_, fun same => ?_⟩
  · simp only [narrow] at narrowed
    split at narrowed
    · rename_i small
      cases narrowed
      exact UInt32.toNat_ofNat_of_lt' small
    · contradiction
  · subst same
    rw [narrow, if_pos arc.toNat_lt, UInt32.ofNat_toNat]

theorem leadingValue_of_leadingArcs {first second : Arc}
    (split : leadingArcs value = .ok (first, second)) : leadingValue first second = .ok value := by
  simp only [leadingArcs] at split
  split at split
  · rename_i small
    cases split
    have root : (UInt32.ofNat (value / 40)).toNat = value / 40 :=
      UInt32.toNat_ofNat_of_lt' (by simp only [UInt32.size]; omega)
    have second : (UInt32.ofNat (value % 40)).toNat = value % 40 :=
      UInt32.toNat_ofNat_of_lt' (by simp only [UInt32.size]; omega)
    rw [leadingValue, root, second, if_pos (by omega), if_neg (by omega), Nat.div_add_mod]
  · rename_i large
    obtain ⟨arc, narrowed, same⟩ := bind_eq_ok_iff.mp split
    cases same
    have rest := narrow_eq_ok_iff.mp narrowed
    have root : (2 : Arc).toNat = 2 := rfl
    rw [leadingValue, rest, root, if_neg (by decide), if_pos rfl,
      Nat.add_sub_cancel' (Nat.le_of_not_lt large)]

theorem toBer_eq_ok_iff :
    oid.toBer = .ok data ↔
      ∃ first second later value, oid = ⟨first :: second :: later⟩ ∧
        leadingValue first second = .ok value ∧
        data = Base128.encode value ++ later.flatMap fun arc => Base128.encode arc.toNat := by
  refine ⟨fun encoded => ?_, fun parts => ?_⟩
  · obtain ⟨arcs⟩ := oid
    simp only [toBer] at encoded
    split at encoded
    · rename_i first second later
      split at encoded
      · contradiction
      · rename_i value combined
        cases encoded
        exact ⟨first, second, later, value, rfl, combined, rfl⟩
    · contradiction
  · obtain ⟨first, second, later, value, rfl, combined, rfl⟩ := parts
    simp only [toBer, combined]

theorem berGroup_eq_ok_iff :
    berGroup cursor = .ok (value, after) ↔
      ∃ reading, Base128.read cursor.rest = .ok reading ∧ value = reading.value ∧
        after = ⟨cursor.position + reading.size, reading.rest⟩ := by
  cases found : Base128.read cursor.rest with
  | error flaw => cases flaw <;> simp [berGroup, Cursor.group, found, bind, Except.bind]
  | ok reading =>
      simp [berGroup, Cursor.group, found, bind, Except.bind, pure, Except.pure, eq_comm]

theorem length_encode_berGroup (found : berGroup cursor = .ok (value, after)) :
    (Base128.encode value).length + after.rest.length ≤ cursor.rest.length := by
  obtain ⟨reading, read, rfl, rfl⟩ := berGroup_eq_ok_iff.mp found
  exact Base128.length_encode_read read

theorem encode_append_of_berGroup (found : berGroup cursor = .ok (value, after))
    (unpadded : Base128.Unpadded cursor.rest) :
    Base128.encode value ++ after.rest = cursor.rest ∧ Base128.Unpadded after.rest := by
  obtain ⟨reading, read, rfl, rfl⟩ := berGroup_eq_ok_iff.mp found
  exact Base128.encode_append_of_read read unpadded

theorem laterArcs_eq_append {found arcs : List Arc} (read : laterArcs found cursor = .ok arcs) :
    ∃ later, arcs = found.reverse ++ later ∧
      (later.flatMap fun arc => Base128.encode arc.toNat).length ≤ cursor.rest.length ∧
      (Base128.Unpadded cursor.rest →
        (later.flatMap fun arc => Base128.encode arc.toNat) = cursor.rest) := by
  fun_induction laterArcs found cursor with
  | case1 found cursor ends =>
      cases read
      exact ⟨[], by simp, by simp, fun _ => (List.isEmpty_iff.mp ends).symm⟩
  | case2 => contradiction
  | case3 => contradiction
  | case4 found cursor more value after group arc narrowed ih =>
      obtain ⟨later, rfl, bounded, same⟩ := ih read
      have room := length_encode_berGroup group
      have narrow := narrow_eq_ok_iff.mp narrowed
      refine ⟨arc :: later, by simp, ?_, fun unpadded => ?_⟩
      · rw [List.flatMap_cons, List.length_append, narrow]
        omega
      · obtain ⟨kept, others⟩ := encode_append_of_berGroup group unpadded
        rw [List.flatMap_cons, narrow, same others, kept]

theorem unpadded_flatMap_encode (arcs : List Arc) :
    Base128.Unpadded (arcs.flatMap fun arc => Base128.encode arc.toNat) := by
  induction arcs with
  | nil => exact Base128.unpadded_nil
  | cons arc later ih =>
      rw [List.flatMap_cons, Base128.unpadded_encode_append]
      exact ih

theorem unpadded_of_toBer (encoded : oid.toBer = .ok data) : Base128.Unpadded data := by
  obtain ⟨first, second, later, value, _, _, rfl⟩ := toBer_eq_ok_iff.mp encoded
  exact Base128.unpadded_encode_append.mpr (unpadded_flatMap_encode later)

/-- What was read is written again without its padding. -/
theorem toBer_of_ofBer (read : ofBer data = .ok oid) :
    ∃ body, oid.toBer = .ok body ∧ body.length ≤ data.length ∧
      (body = data ↔ Base128.Unpadded data) := by
  simp only [ofBer] at read
  split at read
  · contradiction
  · obtain ⟨⟨value, after⟩, group, read⟩ := bind_eq_ok_iff.mp read
    obtain ⟨⟨first, second⟩, leads, read⟩ := bind_eq_ok_iff.mp read
    obtain ⟨arcs, rest, same⟩ := bind_eq_ok_iff.mp read
    cases same
    obtain ⟨later, rfl, bounded, same⟩ := laterArcs_eq_append rest
    have room := length_encode_berGroup group
    have encoded := toBer_eq_ok_iff.mpr
      ⟨first, second, later, value, rfl, leadingValue_of_leadingArcs leads, rfl⟩
    refine ⟨_, encoded, ?_, fun whole => ?_, fun unpadded => ?_⟩
    · rw [List.length_append]
      exact Nat.le_trans (Nat.add_le_add_left bounded _) room
    · rw [← whole]
      exact unpadded_of_toBer encoded
    · obtain ⟨kept, others⟩ := encode_append_of_berGroup group unpadded
      rw [same others]
      exact kept

theorem leadingArcs_of_leadingValue {first second : Arc}
    (combined : leadingValue first second = .ok value) :
    leadingArcs value = .ok (first, second) := by
  simp only [leadingValue] at combined
  split at combined
  · rename_i root
    split at combined
    · contradiction
    · cases combined
      have high : (40 * first.toNat + second.toNat) / 40 = first.toNat := by omega
      have low : (40 * first.toNat + second.toNat) % 40 = second.toNat := by omega
      rw [leadingArcs, if_pos (by omega), high, low, UInt32.ofNat_toNat, UInt32.ofNat_toNat]
      rfl
  · split at combined
    · rename_i root
      cases combined
      have two : first = 2 := UInt32.toNat.inj root
      have narrowed : narrow (80 + second.toNat - 80) 0 = .ok second :=
        narrow_eq_ok_iff.mpr (by omega)
      rw [leadingArcs, if_neg (by omega), narrowed, two]
      rfl
    · contradiction

theorem leadingValue_lt {first second : Arc} (combined : leadingValue first second = .ok value) :
    value < UInt64.size := by
  have small := second.toNat_lt
  simp only [leadingValue] at combined
  simp only [UInt64.size]
  split at combined
  · split at combined
    · contradiction
    · cases combined
      omega
  · split at combined
    · cases combined
      omega
    · contradiction

theorem berGroup_encode (position : Nat) (rest : Bytes) (small : value < UInt64.size) :
    berGroup ⟨position, Base128.encode value ++ rest⟩ =
      .ok (value, ⟨position + (Base128.encode value).length, rest⟩) := by
  simp [berGroup, Cursor.group, Base128.read_encode value rest small, bind, Except.bind, pure,
    Except.pure]

theorem laterArcs_of_more {found : List Arc} (more : cursor.rest ≠ []) :
    laterArcs found cursor = (do
      let (value, after) ← berGroup cursor
      let arc ← narrow value cursor.position
      laterArcs (arc :: found) after) := by
  rw [laterArcs, List.isEmpty_eq_false_iff.mpr more]
  split
  · contradiction
  · split
    · simp_all [bind, Except.bind]
    · rename_i value after group
      simp only [group, bind, Except.bind]
      split <;> simp_all

theorem laterArcs_of_berGroup {found : List Arc} (group : berGroup cursor = .ok (value, after))
    (narrowed : narrow value cursor.position = .ok arc) :
    laterArcs found cursor = laterArcs (arc :: found) after := by
  have more : cursor.rest ≠ [] :=
    List.ne_nil_of_length_pos (Nat.zero_lt_of_lt (berGroup_rest_lt group))
  simp only [laterArcs_of_more more, group, narrowed, bind, Except.bind]

theorem laterArcs_encode (found later : List Arc) (position : Nat) :
    laterArcs found ⟨position, later.flatMap fun arc => Base128.encode arc.toNat⟩ =
      .ok (found.reverse ++ later) := by
  induction later generalizing found position with
  | nil => simp [laterArcs]
  | cons arc later ih =>
      have group := berGroup_encode position (later.flatMap fun arc => Base128.encode arc.toNat)
        (Nat.lt_trans arc.toNat_lt (by decide))
      rw [List.flatMap_cons, laterArcs_of_berGroup group (narrow_eq_ok_iff.mpr rfl), ih]
      simp

theorem ofBer_of_toBer (encoded : oid.toBer = .ok data) : ofBer data = .ok oid := by
  obtain ⟨first, second, later, value, rfl, combined, rfl⟩ := toBer_eq_ok_iff.mp encoded
  have group := berGroup_encode 0 (later.flatMap fun arc => Base128.encode arc.toNat)
    (leadingValue_lt combined)
  have filled : (Base128.encode value ++
      later.flatMap fun arc => Base128.encode arc.toNat).isEmpty = false := by
    simp [Base128.encode]
  simp only [ofBer, filled, Cursor.ofBytes, group, leadingArcs_of_leadingValue combined,
    laterArcs_encode, bind, Except.bind, pure, Except.pure]
  rfl

end CompactOid.Oid
