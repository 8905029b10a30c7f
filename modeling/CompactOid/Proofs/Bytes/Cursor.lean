import CompactOid.Bytes.Cursor
import CompactOid.Proofs.Bytes.LittleEndian

namespace CompactOid.Cursor

variable {cursor after : Cursor} {count value : Nat} {bytes : Bytes} {width : Width}

theorem take?_eq_some_iff :
    cursor.take? count = some (bytes, after) ↔
      bytes.length = count ∧ cursor.rest = bytes ++ after.rest ∧
      after.position = cursor.position + count := by
  obtain ⟨position, rest⟩ := after
  simp only [take?]
  refine ⟨fun taken => ?_, fun divided => ?_⟩
  · split at taken
    · rename_i enough
      cases taken
      exact ⟨enough, (List.take_append_drop count cursor.rest).symm, rfl⟩
    · contradiction
  · obtain ⟨rfl, divided, rfl⟩ := divided
    rw [divided, List.take_left, List.drop_left, if_pos rfl]

theorem take?_eq_none_iff : cursor.take? count = none ↔ cursor.rest.length < count := by
  simp only [take?]
  split
  · rename_i enough
    rw [List.length_take] at enough
    exact iff_of_false (Option.some_ne_none _) (by omega)
  · rename_i missing
    rw [List.length_take] at missing
    exact iff_of_true rfl (by omega)

theorem word?_eq_some_iff :
    cursor.word? width = some (value, after) ↔
      value < LittleEndian.capacity width.size ∧
      cursor.rest = LittleEndian.encode width.size value ++ after.rest ∧
      after.position = cursor.position + width.size := by
  refine ⟨fun found => ?_, fun divided => ?_⟩
  · obtain ⟨⟨bytes, behind⟩, taken, same⟩ := Option.bind_eq_some_iff.mp found
    cases same
    obtain ⟨size, divided, moved⟩ := take?_eq_some_iff.mp taken
    refine ⟨?_, ?_, moved⟩
    · rw [← size]
      exact LittleEndian.decode_lt bytes
    · rw [← size, LittleEndian.encode_decode]
      exact divided
  · obtain ⟨small, divided, moved⟩ := divided
    have taken := take?_eq_some_iff.mpr ⟨LittleEndian.length_encode width.size value, divided, moved⟩
    simp [word?, taken, LittleEndian.decode_encode small]

theorem word?_eq_none_iff : cursor.word? width = none ↔ cursor.rest.length < width.size := by
  rw [← take?_eq_none_iff]
  cases taken : cursor.take? width.size <;> simp [word?, taken]

/-- Two numbers of one width, right behind each other. -/
def wordPair? (width : Width) (cursor : Cursor) : Option ((Nat × Nat) × Cursor) := do
  let (first, middle) ← cursor.word? width
  let (second, after) ← middle.word? width
  return ((first, second), after)

theorem wordPair?_eq_some_iff {first second : Nat} :
    cursor.wordPair? width = some ((first, second), after) ↔
      first < LittleEndian.capacity width.size ∧ second < LittleEndian.capacity width.size ∧
      cursor.rest = LittleEndian.encode width.size first ++
        LittleEndian.encode width.size second ++ after.rest ∧
      after.position = cursor.position + 2 * width.size := by
  refine ⟨fun found => ?_, fun divided => ?_⟩
  · obtain ⟨⟨low, middle⟩, left, found⟩ := Option.bind_eq_some_iff.mp found
    obtain ⟨⟨high, behind⟩, right, same⟩ := Option.bind_eq_some_iff.mp found
    cases same
    obtain ⟨lowSmall, front, moved⟩ := word?_eq_some_iff.mp left
    obtain ⟨highSmall, back, stopped⟩ := word?_eq_some_iff.mp right
    refine ⟨lowSmall, highSmall, ?_, ?_⟩
    · rw [front, back, List.append_assoc]
    · rw [stopped, moved, Nat.two_mul, Nat.add_assoc]
  · obtain ⟨lowSmall, highSmall, divided, moved⟩ := divided
    let middle : Cursor :=
      ⟨cursor.position + width.size, LittleEndian.encode width.size second ++ after.rest⟩
    have left : cursor.word? width = some (first, middle) :=
      word?_eq_some_iff.mpr ⟨lowSmall, by rw [divided, List.append_assoc], rfl⟩
    have right : middle.word? width = some (second, after) :=
      word?_eq_some_iff.mpr ⟨highSmall, rfl, by rw [moved, Nat.two_mul, Nat.add_assoc]⟩
    simp [wordPair?, left, right]

theorem wordPair?_eq_none_iff :
    cursor.wordPair? width = none ↔ cursor.rest.length < 2 * width.size := by
  cases left : cursor.word? width with
  | none =>
      have short := word?_eq_none_iff.mp left
      refine iff_of_true (by simp [wordPair?, left]) ?_
      omega
  | some found =>
      obtain ⟨low, middle⟩ := found
      obtain ⟨_, divided, _⟩ := word?_eq_some_iff.mp left
      have length : cursor.rest.length = width.size + middle.rest.length := by
        rw [divided, List.length_append, LittleEndian.length_encode]
      have rest : cursor.wordPair? width = none ↔ middle.word? width = none := by
        cases right : middle.word? width <;> simp [wordPair?, left, right]
      rw [rest, word?_eq_none_iff]
      omega

variable {data taken : Bytes} {before : Cursor}

/-- The cursor moves over these bytes. -/
structure Passes (taken : Bytes) (before after : Cursor) : Prop where
  divided : before.rest = taken ++ after.rest
  moved : after.position = before.position + taken.length

/-- The cursor stands at a place of the data, with the rest of them in front of it. -/
structure Within (data : Bytes) (cursor : Cursor) : Prop where
  position_le : cursor.position ≤ data.length
  rest_eq : cursor.rest = data.drop cursor.position

theorem passes_nil_iff : Passes [] before after ↔ after = before := by
  obtain ⟨position, rest⟩ := after
  constructor
  · intro passed
    obtain ⟨divided, moved⟩ := passed
    simp only [List.nil_append, List.length_nil, Nat.add_zero] at divided moved
    rw [moved, ← divided]
  · rintro rfl
    exact ⟨rfl, rfl⟩

theorem within_ofBytes (data : Bytes) : Within data (ofBytes data) :=
  ⟨Nat.zero_le _, rfl⟩

theorem Within.passes (within : Within data before) (passed : Passes taken before after) :
    Within data after := by
  have divided := within.rest_eq.symm.trans passed.divided
  have length := congrArg List.length divided
  rw [List.length_drop, List.length_append] at length
  have start := within.position_le
  constructor
  · rw [passed.moved]
    omega
  · rw [passed.moved, ← List.drop_drop, divided, List.drop_left]

end CompactOid.Cursor
