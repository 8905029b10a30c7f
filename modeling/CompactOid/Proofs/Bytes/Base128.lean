import CompactOid.Bytes.Base128

namespace CompactOid.Base128

@[simp] theorem leading_zero : leading 0 = [] := by
  rw [leading, if_pos rfl]

theorem encode_of_small {value : Nat} (small : value < 128) :
    encode value = [UInt8.ofNat value] := by
  rw [encode, Nat.div_eq_of_lt small, Nat.mod_eq_of_lt small, leading_zero, List.nil_append]

/-- Seven more bits take one more byte at most, and none while the value is zero. -/
theorem length_leading_le (high low : Nat) (small : low < 128) :
    (leading (high * 128 + low)).length ≤ (leading high).length + 1 := by
  have shifted : (high * 128 + low) / 128 = high := by omega
  rw [leading]
  split
  · simp
  · exact Nat.le_of_eq (by rw [shifted, List.length_append, List.length_singleton])

theorem length_encode_readFrom {high size : Nat} {bytes : Bytes} {reading : Reading}
    (found : readFrom high size bytes = .ok reading) :
    (encode reading.value).length + reading.rest.length ≤ (leading high).length + bytes.length := by
  induction bytes generalizing high size with
  | nil => simp [readFrom] at found
  | cons byte rest ih =>
      have low : byte.toNat % 128 < 128 := Nat.mod_lt _ (by decide)
      simp only [readFrom] at found
      split at found
      · contradiction
      · split at found
        · cases found
          have shifted : (high * 128 + byte.toNat % 128) / 128 = high := by omega
          simp only [encode, shifted, List.length_append, List.length_cons, List.length_nil]
          omega
        · have later := ih found
          have grown := length_leading_le high _ low
          rw [List.length_cons]
          omega

theorem length_encode_read {bytes : Bytes} {reading : Reading}
    (found : read bytes = .ok reading) :
    (encode reading.value).length + reading.rest.length ≤ bytes.length := by
  simpa using length_encode_readFrom found

theorem ends_iff {byte : UInt8} : byte < 128 ↔ byte.toNat < 128 :=
  UInt8.lt_iff_toNat_lt

theorem last_digit {byte : UInt8} (ends : byte < 128) : UInt8.ofNat (byte.toNat % 128) = byte := by
  rw [Nat.mod_eq_of_lt (ends_iff.mp ends), UInt8.ofNat_toNat]

theorem leading_digit {byte : UInt8} (continues : ¬ byte < 128) :
    UInt8.ofNat (byte.toNat % 128 + 128) = byte := by
  have small := byte.toNat_lt
  rw [ends_iff] at continues
  rw [show byte.toNat % 128 + 128 = byte.toNat by omega, UInt8.ofNat_toNat]

/-- A byte string cut behind each byte without a high bit; the last piece may lack such a byte. -/
def groups : Bytes → List Bytes
  | [] => []
  | byte :: rest =>
      if byte < 128 then [byte] :: groups rest
      else match groups rest with
        | [] => [[byte]]
        | group :: later => (byte :: group) :: later

/-- No group begins with a byte that adds nothing to its value. -/
def Unpadded (bytes : Bytes) : Prop :=
  ∀ group ∈ groups bytes, group.head? ≠ some 0x80

theorem unpadded_nil : Unpadded [] := by
  simp [Unpadded, groups]

theorem groups_append {front rest : Bytes} {last : UInt8} (continued : ∀ byte ∈ front, ¬ byte < 128)
    (ends : last < 128) : groups (front ++ last :: rest) = (front ++ [last]) :: groups rest := by
  induction front with
  | nil => simp [groups, ends]
  | cons byte front ih =>
      obtain ⟨first, others⟩ := List.forall_mem_cons.mp continued
      rw [List.cons_append, groups, if_neg first, ih others]
      rfl

theorem leading_continued (value : Nat) : ∀ byte ∈ leading value, ¬ byte < 128 := by
  induction value using Nat.strongRecOn with
  | ind value ih =>
      rw [leading]
      split
      · simp
      · rename_i nonzero
        have high : ¬ UInt8.ofNat (value % 128 + 128) < 128 := by
          rw [ends_iff, UInt8.toNat_ofNat']
          omega
        exact List.forall_mem_append.mpr
          ⟨ih (value / 128) (by omega), List.forall_mem_singleton.mpr high⟩

theorem groups_encode_append (value : Nat) (rest : Bytes) :
    groups (encode value ++ rest) = encode value :: groups rest := by
  have ends : UInt8.ofNat (value % 128) < 128 := by
    rw [ends_iff, UInt8.toNat_ofNat']
    omega
  rw [encode, List.append_assoc]
  exact groups_append (leading_continued (value / 128)) ends

theorem head?_leading_append {value : Nat} (nonzero : value ≠ 0) (rest : Bytes) :
    (leading value ++ rest).head? ≠ some 0x80 := by
  induction value using Nat.strongRecOn generalizing rest with
  | ind value ih =>
      rw [leading, if_neg nonzero, List.append_assoc]
      by_cases single : value / 128 = 0
      · rw [single, leading_zero, List.nil_append, List.singleton_append, List.head?_cons]
        intro padding
        have digit : (UInt8.ofNat (value % 128 + 128)).toNat = 128 :=
          congrArg UInt8.toNat (Option.some.inj padding)
        rw [UInt8.toNat_ofNat'] at digit
        omega
      · exact ih (value / 128) (by omega) single _

theorem head?_encode (value : Nat) : (encode value).head? ≠ some 0x80 := by
  by_cases small : value < 128
  · rw [encode_of_small small, List.head?_cons]
    intro padding
    have digit : (UInt8.ofNat value).toNat = 128 := congrArg UInt8.toNat (Option.some.inj padding)
    rw [UInt8.toNat_ofNat'] at digit
    omega
  · exact head?_leading_append (by omega) _

theorem unpadded_encode_append {value : Nat} {rest : Bytes} :
    Unpadded (encode value ++ rest) ↔ Unpadded rest := by
  simp [Unpadded, groups_encode_append, head?_encode]

theorem groups_of_readFrom {high size : Nat} {bytes : Bytes} {reading : Reading}
    (found : readFrom high size bytes = .ok reading) :
    ∃ group, group.head? = bytes.head? ∧ groups bytes = group :: groups reading.rest := by
  induction bytes generalizing high size with
  | nil => simp [readFrom] at found
  | cons byte rest ih =>
      simp only [readFrom] at found
      split at found
      · contradiction
      · split at found
        · rename_i ends
          cases found
          exact ⟨[byte], rfl, by simp [groups, ends]⟩
        · rename_i continues
          obtain ⟨group, _, same⟩ := ih found
          exact ⟨byte :: group, rfl, by rw [groups, if_neg continues, same]⟩

/-- A value that is not zero, or a byte that is no padding, keeps every later byte needed. -/
theorem encode_append_of_readFrom {high size : Nat} {bytes : Bytes} {reading : Reading}
    (found : readFrom high size bytes = .ok reading)
    (needed : high ≠ 0 ∨ bytes.head? ≠ some 0x80) :
    encode reading.value ++ reading.rest = leading high ++ bytes := by
  induction bytes generalizing high size with
  | nil => simp [readFrom] at found
  | cons byte rest ih =>
      have shifted : (high * 128 + byte.toNat % 128) / 128 = high := by omega
      have digit : (high * 128 + byte.toNat % 128) % 128 = byte.toNat % 128 := by omega
      simp only [readFrom] at found
      split at found
      · contradiction
      · split at found
        · rename_i ends
          cases found
          simp [encode, shifted, digit, last_digit ends]
        · rename_i continues
          have nonzero : high * 128 + byte.toNat % 128 ≠ 0 := by
            intro zero
            obtain positive | unpadded := needed
            · omega
            · apply unpadded
              rw [List.head?_cons, ← leading_digit continues, show byte.toNat % 128 = 0 by omega]
              rfl
          rw [ih found (.inl nonzero), leading, if_neg nonzero, shifted, digit,
            leading_digit continues]
          simp

theorem encode_append_of_read {bytes : Bytes} {reading : Reading}
    (found : read bytes = .ok reading) (unpadded : Unpadded bytes) :
    encode reading.value ++ reading.rest = bytes ∧ Unpadded reading.rest := by
  obtain ⟨group, front, same⟩ := groups_of_readFrom found
  rw [Unpadded, same] at unpadded
  obtain ⟨first, others⟩ := List.forall_mem_cons.mp unpadded
  rw [front] at first
  exact ⟨by simpa using encode_append_of_readFrom found (.inr first), others⟩

end CompactOid.Base128
