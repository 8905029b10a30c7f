import CompactOid.Proofs.Bytes.Base128

namespace CompactOid.Base128

/-! Groups by the numbers that they stand for.

The value of a group has no bound: it is made up of seven bits of each byte, most
significant first.  A whole group is read exactly if its value has 64 bits.  Bytes
of a group that does not end are refused as well, and one that grew too large
before its end, or before the end of the data, is told apart from one that is
only cut off.
-/

/-- The number of the bytes behind others of which the number is known. -/
def valueFrom (high : Nat) (bytes : Bytes) : Nat :=
  bytes.foldl (fun value byte => value * 128 + byte.toNat % 128) high

/-- The number that a group stands for. -/
def valueOf (group : Bytes) : Nat :=
  valueFrom 0 group

/-- One whole group: every byte but the last has its high bit set. -/
inductive Closed : Bytes → Prop where
  | last {byte : UInt8} (ends : byte < 128) : Closed [byte]
  | more {byte : UInt8} {group : Bytes} (continues : ¬ byte < 128) (behind : Closed group) :
      Closed (byte :: group)

/-- Bytes behind which a group goes on. -/
def Continued (bytes : Bytes) : Prop :=
  ∀ byte ∈ bytes, ¬ byte < 128

/-- Some byte of the group stands behind a number that has no room for seven more bits. -/
def Overlong (high : Nat) (bytes : Bytes) : Prop :=
  ∃ before byte later, bytes = before ++ byte :: later ∧ Continued before ∧
    limit ≤ valueFrom high before

/-- No group is left open at the end of the bytes. -/
def Ends (bytes : Bytes) : Prop :=
  ∀ last ∈ bytes.getLast?, last < 128

/-- How bytes fall into groups, of which only the last may lack its end. -/
inductive Grouped : Bytes → List Bytes → Prop where
  | none : Grouped [] []
  | cutOff {bytes : Bytes} (filled : bytes ≠ []) (continued : Continued bytes) :
      Grouped bytes [bytes]
  | group {group rest : Bytes} {later : List Bytes} (closed : Closed group)
      (behind : Grouped rest later) : Grouped (group ++ rest) (group :: later)

/-- The numbers that the groups of the bytes stand for. -/
def values (bytes : Bytes) : List Nat :=
  (groups bytes).map valueOf

variable {high size : Nat} {byte : UInt8} {bytes front group rest : Bytes}

@[simp] theorem valueFrom_nil (high : Nat) : valueFrom high [] = high := rfl

@[simp] theorem valueFrom_cons (high : Nat) (byte : UInt8) (bytes : Bytes) :
    valueFrom high (byte :: bytes) = valueFrom (high * 128 + byte.toNat % 128) bytes := rfl

theorem le_valueFrom (high : Nat) (bytes : Bytes) : high ≤ valueFrom high bytes := by
  induction bytes generalizing high with
  | nil => exact Nat.le_refl high
  | cons byte rest ih =>
      have grown := ih (high * 128 + byte.toNat % 128)
      rw [valueFrom_cons]
      omega

theorem continued_cons : Continued (byte :: bytes) ↔ ¬ byte < 128 ∧ Continued bytes :=
  List.forall_mem_cons

theorem Closed.not_continued (closed : Closed group) : ¬ Continued group := by
  intro continued
  induction closed with
  | last ends => exact (continued_cons.mp continued).1 ends
  | more _ _ ih => exact ih (continued_cons.mp continued).2

theorem Closed.getLast?_eq (closed : Closed group) :
    ∃ last, group.getLast? = some last ∧ last < 128 := by
  induction closed with
  | @last byte ends => exact ⟨byte, rfl, ends⟩
  | more _ _ ih =>
      obtain ⟨last, found, ends⟩ := ih
      exact ⟨last, by rw [List.getLast?_cons, found]; rfl, ends⟩

theorem readFrom_cons (room : high < limit) (continues : ¬ byte < 128) (size : Nat)
    (bytes : Bytes) : readFrom high size (byte :: bytes) =
      readFrom (high * 128 + byte.toNat % 128) (size + 1) bytes := by
  simp only [readFrom, if_neg (Nat.not_le.mpr room), if_neg continues]

theorem lt_limit_of_valueFrom_lt (small : valueFrom high (byte :: bytes) < UInt64.size) :
    high < limit := by
  have grown := le_valueFrom (high * 128 + byte.toNat % 128) bytes
  rw [valueFrom_cons] at small
  simp only [limit, UInt64.size] at small ⊢
  omega

theorem readFrom_of_closed (closed : Closed group) (small : valueFrom high group < UInt64.size)
    (size : Nat) (rest : Bytes) :
    readFrom high size (group ++ rest) =
      .ok ⟨valueFrom high group, size + group.length, rest⟩ := by
  induction closed generalizing high size with
  | last ends =>
      have room := lt_limit_of_valueFrom_lt small
      simp [readFrom, Nat.not_le.mpr room, ends]
  | more continues _ ih =>
      have room := lt_limit_of_valueFrom_lt small
      rw [List.cons_append, readFrom_cons room continues, ih small]
      simp only [valueFrom_cons, List.length_cons, Nat.add_assoc, Nat.add_comm 1]

theorem overlong_cons (continues : ¬ byte < 128)
    (overlong : Overlong (high * 128 + byte.toNat % 128) bytes) : Overlong high (byte :: bytes) := by
  obtain ⟨before, next, later, rfl, continued, full⟩ := overlong
  exact ⟨byte :: before, next, later, rfl, continued_cons.mpr ⟨continues, continued⟩, full⟩

theorem readFrom_of_overlong (overlong : Overlong high bytes) (size : Nat) (rest : Bytes) :
    readFrom high size (bytes ++ rest) = .error .overflow := by
  obtain ⟨before, byte, later, rfl, continued, full⟩ := overlong
  induction before generalizing high size with
  | nil => simp [readFrom, show limit ≤ high from full]
  | cons first before ih =>
      obtain ⟨continues, continued⟩ := continued_cons.mp continued
      rw [List.cons_append, List.cons_append]
      by_cases room : high < limit
      · rw [readFrom_cons room continues]
        exact ih _ continued full
      · simp [readFrom, Nat.not_lt.mp room]

theorem readFrom_of_continued (continued : Continued bytes) (room : ¬ Overlong high bytes)
    (size : Nat) : readFrom high size bytes = .error .cutOff := by
  induction bytes generalizing high size with
  | nil => rfl
  | cons byte rest ih =>
      obtain ⟨continues, continued⟩ := continued_cons.mp continued
      have small : high < limit := by
        apply Nat.lt_of_not_le
        intro full
        exact room ⟨[], byte, rest, rfl, List.forall_mem_nil _, full⟩
      rw [readFrom_cons small continues]
      exact ih continued (fun overlong => room (overlong_cons continues overlong)) _

/-- A whole group is too large only if it was so before its last byte. -/
theorem Closed.overlong (closed : Closed group) (large : UInt64.size ≤ valueFrom high group) :
    Overlong high group := by
  induction closed generalizing high with
  | @last byte ends =>
      refine ⟨[], byte, [], rfl, List.forall_mem_nil _, ?_⟩
      simp only [valueFrom_cons, valueFrom_nil, limit, UInt64.size] at large ⊢
      omega
  | more continues _ ih => exact overlong_cons continues (ih large)

theorem closed_or_continued (bytes : Bytes) :
    (∃ group rest, bytes = group ++ rest ∧ Closed group) ∨ Continued bytes := by
  induction bytes with
  | nil => exact .inr (List.forall_mem_nil _)
  | cons byte later ih =>
      by_cases ends : byte < 128
      · exact .inl ⟨[byte], later, rfl, .last ends⟩
      · rcases ih with ⟨group, rest, rfl, closed⟩ | continued
        · exact .inl ⟨byte :: group, rest, rfl, .more ends closed⟩
        · exact .inr (continued_cons.mpr ⟨ends, continued⟩)

theorem Overlong.append (overlong : Overlong high front) (rest : Bytes) :
    Overlong high (front ++ rest) := by
  obtain ⟨before, byte, later, rfl, continued, full⟩ := overlong
  exact ⟨before, byte, later ++ rest, by simp, continued, full⟩

theorem read_of_overlong (overlong : Overlong 0 bytes) : read bytes = .error .overflow := by
  rw [read, ← List.append_nil bytes, readFrom_of_overlong overlong]

theorem read_of_continued (continued : Continued bytes) (room : ¬ Overlong 0 bytes) :
    read bytes = .error .cutOff :=
  readFrom_of_continued continued room 0

/-- A group is read exactly if it ends and its number has 64 bits. -/
theorem read_eq_ok_iff {reading : Reading} :
    read bytes = .ok reading ↔
      ∃ group, Closed group ∧ valueOf group < UInt64.size ∧ bytes = group ++ reading.rest ∧
        reading.value = valueOf group ∧ reading.size = group.length := by
  constructor
  · intro found
    rcases closed_or_continued bytes with ⟨group, rest, rfl, closed⟩ | continued
    · by_cases small : valueOf group < UInt64.size
      · rw [read, readFrom_of_closed closed small, Nat.zero_add] at found
        cases found
        exact ⟨group, closed, small, rfl, rfl, rfl⟩
      · rw [read_of_overlong ((closed.overlong (Nat.le_of_not_lt small)).append rest)] at found
        contradiction
    · by_cases overlong : Overlong 0 bytes
      · rw [read_of_overlong overlong] at found
        contradiction
      · rw [read_of_continued continued overlong] at found
        contradiction
  · intro parts
    obtain ⟨value, size, rest⟩ := reading
    obtain ⟨group, closed, small, rfl, rfl, rfl⟩ := parts
    rw [read, readFrom_of_closed closed small, Nat.zero_add]
    rfl

theorem closed_encode {value : Nat} (small : value < UInt64.size) :
    Closed (encode value) ∧ valueOf (encode value) = value := by
  have found := read_encode value [] small
  rw [List.append_nil] at found
  obtain ⟨group, closed, _, divided, number, _⟩ := read_eq_ok_iff.mp found
  have whole : encode value = group := divided.trans (List.append_nil group)
  rw [whole]
  exact ⟨closed, number.symm⟩

/-- No group of the same number is shorter than the one that is written. -/
theorem length_encode_le (closed : Closed group) (small : valueOf group < UInt64.size) :
    (encode (valueOf group)).length ≤ group.length := by
  have found : read group = .ok ⟨valueOf group, group.length, []⟩ :=
    read_eq_ok_iff.mpr ⟨group, closed, small, (List.append_nil group).symm, rfl, rfl⟩
  exact length_encode_read found

theorem grouped_groups (bytes : Bytes) : Grouped bytes (groups bytes) := by
  induction bytes with
  | nil => exact .none
  | cons byte rest ih =>
      rw [groups]
      split
      · rename_i ends
        exact .group (.last ends) ih
      · rename_i continues
        generalize groups rest = found at ih
        cases ih with
        | none =>
            exact .cutOff (List.cons_ne_nil _ _) (List.forall_mem_singleton.mpr continues)
        | cutOff _ continued =>
            exact .cutOff (List.cons_ne_nil _ _) (continued_cons.mpr ⟨continues, continued⟩)
        | group closed behind => exact .group (.more continues closed) behind

theorem groups_closed_append (closed : Closed group) (rest : Bytes) :
    groups (group ++ rest) = group :: groups rest := by
  induction closed with
  | last ends => simp [groups, ends]
  | more continues _ ih =>
      rw [List.cons_append, groups, if_neg continues, ih]

theorem ends_closed_append (closed : Closed group) : Ends (group ++ rest) ↔ Ends rest := by
  obtain ⟨last, found, ends⟩ := closed.getLast?_eq
  rw [Ends, Ends, List.getLast?_append, found]
  cases rest.getLast? <;> simp [ends]

theorem not_ends_of_continued (filled : bytes ≠ []) (continued : Continued bytes) :
    ¬ Ends bytes := by
  intro ends
  exact continued _ (List.getLast_mem filled) (ends _ (List.getLast?_eq_some_getLast filled))

theorem Grouped.closed_iff_ends {pieces : List Bytes} (grouped : Grouped bytes pieces) :
    (∀ group ∈ pieces, Closed group) ↔ Ends bytes := by
  induction grouped with
  | none => simp [Ends]
  | cutOff filled continued =>
      rw [List.forall_mem_singleton]
      exact iff_of_false (fun closed => closed.not_continued continued)
        (not_ends_of_continued filled continued)
  | group closed _ ih =>
      rw [List.forall_mem_cons, ends_closed_append closed, ← ih]
      exact and_iff_right closed

theorem groups_append_of_ends (ends : Ends front) (rest : Bytes) :
    groups (front ++ rest) = groups front ++ groups rest := by
  have grouped := grouped_groups front
  generalize groups front = pieces at grouped
  induction grouped with
  | none => rfl
  | cutOff filled continued => exact absurd ends (not_ends_of_continued filled continued)
  | group closed _ ih =>
      rw [List.append_assoc, groups_closed_append closed, ih ((ends_closed_append closed).mp ends)]
      rfl

theorem values_append (ends : Ends front) (rest : Bytes) :
    values (front ++ rest) = values front ++ values rest := by
  rw [values, groups_append_of_ends ends, List.map_append]
  rfl

theorem groups_ne_nil (filled : bytes ≠ []) : groups bytes ≠ [] := by
  have grouped := grouped_groups bytes
  intro empty
  rw [empty] at grouped
  cases grouped
  contradiction

/-- Padding in front of a group is part of it and leaves its value as it is. -/
theorem values_padding (filled : rest ≠ []) (count : Nat) :
    values (List.replicate count 0x80 ++ rest) = values rest := by
  induction count with
  | zero => rfl
  | succ count ih =>
      have more : List.replicate count 0x80 ++ rest ≠ [] := List.append_ne_nil_of_right_ne_nil _ filled
      obtain ⟨group, later, found⟩ := List.exists_cons_of_ne_nil (groups_ne_nil more)
      rw [List.replicate_succ, List.cons_append, ← ih, values, groups, if_neg (by decide),
        values, found]
      rfl

end CompactOid.Base128
