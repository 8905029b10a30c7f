import CompactOid.Proofs.Oid.Ber

namespace CompactOid.Oid

/-- There are two arcs at least, and the first two obey the rules of the root. -/
def WellRooted (oid : Oid) : Prop :=
  ∃ first second later, oid = ⟨first :: second :: later⟩ ∧
    first.toNat ≤ 2 ∧ (first.toNat < 2 → second.toNat ≤ 39)

instance : DecidablePred WellRooted
  | ⟨[]⟩ | ⟨[_]⟩ => .isFalse fun ⟨_, _, _, same, _⟩ => by simp at same
  | ⟨first :: second :: later⟩ =>
      decidable_of_iff (first.toNat ≤ 2 ∧ (first.toNat < 2 → second.toNat ≤ 39))
        ⟨fun rules => ⟨first, second, later, rfl, rules⟩,
          fun ⟨_, _, _, same, rules⟩ => by cases same; exact rules⟩

/-- The identifier breaks the rule, with the values that the rule names. -/
inductive Breaks : Oid → ArcRule → Prop where
  | tooFew {arcs : List Arc} (few : arcs.length < 2) : Breaks ⟨arcs⟩ (.tooFew arcs.length)
  | secondTooLarge {first second : Arc} {later : List Arc} (root : first.toNat < 2)
      (large : 39 < second.toNat) :
      Breaks ⟨first :: second :: later⟩ (.secondTooLarge first second)
  | unknownRoot {first second : Arc} {later : List Arc} (root : 2 < first.toNat) :
      Breaks ⟨first :: second :: later⟩ (.unknownRoot first)

variable {oid : Oid} {data : Bytes} {first second : Arc} {rule : ArcRule}

theorem toBer_of_wellRooted (rooted : oid.WellRooted) : ∃ data, oid.toBer = .ok data := by
  obtain ⟨first, second, later, rfl, known, small⟩ := rooted
  have combined : ∃ value, leadingValue first second = .ok value := by
    rw [leadingValue]
    by_cases low : first.toNat < 2
    · rw [if_pos low, if_neg (Nat.not_lt.mpr (small low))]
      exact ⟨_, rfl⟩
    · rw [if_neg low, if_pos (by omega)]
      exact ⟨_, rfl⟩
  obtain ⟨value, combined⟩ := combined
  exact ⟨_, toBer_eq_ok_iff.mpr ⟨first, second, later, value, rfl, combined, rfl⟩⟩

theorem toBer_of_breaks (broken : oid.Breaks rule) : oid.toBer = .error rule := by
  cases broken with
  | @tooFew arcs few =>
      match arcs with
      | [] | [_] => rfl
      | _ :: _ :: _ =>
          rw [List.length_cons, List.length_cons] at few
          omega
  | secondTooLarge root large =>
      simp only [toBer, leadingValue, if_pos root, if_pos large]
  | @unknownRoot first second later root =>
      have high : ¬ first.toNat < 2 := by omega
      have other : ¬ first.toNat = 2 := by omega
      simp only [toBer, leadingValue, if_neg high, if_neg other]

theorem wellRooted_or_breaks (oid : Oid) : oid.WellRooted ∨ ∃ rule, oid.Breaks rule := by
  match oid with
  | ⟨[]⟩ | ⟨[_]⟩ => exact .inr ⟨_, .tooFew (by simp)⟩
  | ⟨first :: second :: later⟩ =>
      by_cases known : first.toNat ≤ 2
      · by_cases small : first.toNat < 2 → second.toNat ≤ 39
        · exact .inl ⟨first, second, later, rfl, known, small⟩
        · rw [Classical.not_imp] at small
          exact .inr ⟨_, .secondTooLarge small.1 (Nat.lt_of_not_le small.2)⟩
      · exact .inr ⟨_, .unknownRoot (Nat.lt_of_not_le known)⟩

theorem toBer_exists_iff : (∃ data, oid.toBer = .ok data) ↔ oid.WellRooted := by
  refine ⟨fun written => ?_, toBer_of_wellRooted⟩
  obtain ⟨data, encoded⟩ := written
  rcases oid.wellRooted_or_breaks with rooted | ⟨rule, broken⟩
  · exact rooted
  · rw [toBer_of_breaks broken] at encoded
    contradiction

theorem toBer_eq_error_iff : oid.toBer = .error rule ↔ oid.Breaks rule := by
  refine ⟨fun refused => ?_, toBer_of_breaks⟩
  rcases oid.wellRooted_or_breaks with rooted | ⟨broken, breaks⟩
  · obtain ⟨data, encoded⟩ := toBer_of_wellRooted rooted
    rw [encoded] at refused
    contradiction
  · rw [toBer_of_breaks breaks] at refused
    cases refused
    exact breaks

/-- Among the forms that are read as an identifier, the one without padding is written. -/
theorem toBer_eq_ok_iff_unpadded :
    oid.toBer = .ok data ↔ ofBer data = .ok oid ∧ Base128.Unpadded data := by
  refine ⟨fun encoded => ⟨ofBer_of_toBer encoded, unpadded_of_toBer encoded⟩, fun canonical => ?_⟩
  obtain ⟨read, unpadded⟩ := canonical
  obtain ⟨form, encoded, _, same⟩ := toBer_of_ofBer read
  rw [encoded, same.mpr unpadded]

/-- Exactly the well-rooted identifiers have a form, one that is read back, and each form that is
read, padded or not, leads to the one without padding. -/
theorem identifiers_match_unpadded_forms (oid : Oid) (data : Bytes) :
    ((∃ form, oid.toBer = .ok form) ↔ oid.WellRooted) ∧
    (∀ rule, oid.toBer = .error rule ↔ oid.Breaks rule) ∧
    (oid.toBer = .ok data ↔ ofBer data = .ok oid ∧ Base128.Unpadded data) ∧
    (ofBer data = .ok oid → ∃ form, oid.toBer = .ok form ∧ form.length ≤ data.length ∧
      ofBer form = .ok oid ∧ (form = data ↔ Base128.Unpadded data)) := by
  refine ⟨toBer_exists_iff, fun _ => toBer_eq_error_iff, toBer_eq_ok_iff_unpadded, fun read => ?_⟩
  obtain ⟨form, encoded, bounded, same⟩ := toBer_of_ofBer read
  exact ⟨form, encoded, bounded, ofBer_of_toBer encoded, same⟩

/-- Two groups are padded, and the first arcs make up a value beyond 32 bits. -/
theorem padded_form_has_a_shorter_one :
    let oid : Oid := ⟨[2, 4294967295, 5]⟩
    let data : Bytes := [0x80, 0x90, 0x80, 0x80, 0x80, 0x4f, 0x80, 5]
    ofBer data = .ok oid ∧ ∃ form, oid.toBer = .ok form ∧ form.length ≤ data.length ∧
      ofBer form = .ok oid ∧ form ≠ data := by
  intro oid data
  have read : ofBer data = .ok oid := by cbv
  obtain ⟨_, _, _, rewritten⟩ := identifiers_match_unpadded_forms oid data
  obtain ⟨form, encoded, bounded, again, same⟩ := rewritten read
  refine ⟨read, form, encoded, bounded, again, mt same.mp ?_⟩
  intro unpadded
  exact unpadded _ List.mem_cons_self rfl

end CompactOid.Oid
