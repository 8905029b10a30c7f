import CompactOid.Bytes.Base128.Words
import CompactOid.Proofs.Bytes.Program
import Mathlib.Algebra.Ring.Nat

namespace CompactOid.Base128

/-! Groups of 64-bit words are the groups of their numbers.

The shortest group of a word has as many bytes as its highest bit asks for, and
no byte of it is shifted by 64 bits or more.  As long as the highest seven bits
of a word are free, a shift loses none of them, so a word holds the number of the
bytes passed so far.  Hence every word is read back from its group, wherever that
stands, and the bytes from the offset on settle which of three outcomes a read has.
-/

variable {word : UInt64} {value count behind : Nat} {byte : UInt8} {group : Bytes}
  {buffer : Buffer}

theorem shiftRight_eq_zero_iff : word.toNat >>> count = 0 ↔ bitCount word ≤ count := by
  have below : word.toNat < 2 ^ bitCount word := BitVec.toNat_lt_two_pow_sub_clz
  refine ⟨fun gone => ?_, fun enough => ?_⟩
  · by_contra few
    have filled : word.toBitVec ≠ 0#64 := by
      intro zero
      have all : word.toBitVec.clz = 64#64 := BitVec.clz_eq_iff_eq_zero.mpr zero
      simp [bitCount, all] at few
    have above := BitVec.two_pow_sub_clz_le_toNat_of_ne_zero (by decide) filled
    have reaches : 2 ^ count ≤ 2 ^ (64 - 1 - word.toBitVec.clz.toNat) :=
      Nat.pow_le_pow_right (by decide) (by simp only [bitCount] at few; omega)
    rw [Nat.shiftRight_eq_div_pow, Nat.div_eq_zero_iff_lt (Nat.two_pow_pos count)] at gone
    exact absurd gone (Nat.not_lt.mpr (Nat.le_trans reaches above))
  · exact Nat.shiftRight_eq_zero _ _
      (Nat.lt_of_lt_of_le below (Nat.pow_le_pow_right (by decide) enough))

theorem div_shiftRight (value behind : Nat) :
    (value / 128) >>> (behind * 7) = value >>> ((behind + 1) * 7) := by
  rw [Nat.succ_mul, Nat.add_comm, Nat.shiftRight_add, Nat.shiftRight_eq_div_pow value 7]

/-- The leading bytes, each from a shift of its own, if there are just enough of them. -/
theorem leading_eq_map (ends : value >>> (count * 7) = 0)
    (filled : ∀ behind < count, value >>> (behind * 7) ≠ 0) :
    leading value = (List.range count).reverse.map
      fun behind => UInt8.ofNat (value >>> (behind * 7) % 128 + 128) := by
  induction count generalizing value with
  | zero =>
      have zero : value = 0 := by simpa using ends
      rw [zero, leading_zero]
      rfl
  | succ count ih =>
      have nonzero : value ≠ 0 := by simpa using filled 0 (Nat.zero_lt_succ count)
      have higher : leading (value / 128) = (List.range count).reverse.map
          fun behind => UInt8.ofNat (value >>> ((behind + 1) * 7) % 128 + 128) := by
        simp only [← div_shiftRight]
        refine ih ?_ ?_
        · rw [div_shiftRight, ends]
        · intro behind inside
          rw [div_shiftRight]
          exact filled (behind + 1) (Nat.succ_lt_succ inside)
      rw [leading, if_neg nonzero, higher, List.range_succ_eq_map, List.reverse_cons,
        List.map_append, ← List.map_reverse, List.map_map]
      rfl

theorem toNat_low (word : UInt64) : (word &&& 0x7F).toUInt8.toNat = word.toNat % 128 := by
  have low : (word &&& 0x7F).toNat = word.toNat % 128 :=
    Nat.and_two_pow_sub_one_eq_mod word.toNat 7
  rw [UInt64.toNat_toUInt8, low]
  omega

theorem toNat_flagged (small : byte.toNat < 128) : (byte ||| 0x80).toNat = byte.toNat + 128 := by
  have joined : 128 * 1 + byte.toNat = 128 * 1 ||| byte.toNat :=
    Nat.two_pow_add_eq_or_of_lt (i := 7) small 1
  rw [UInt8.toNat_or, Nat.or_comm, Nat.add_comm]
  exact joined.symm

theorem digit_eq (inside : behind * 7 < 64) :
    digit word behind =
      UInt8.ofNat (word.toNat >>> (behind * 7) % 128 + if 0 < behind then 128 else 0) := by
  have shifted : (word >>> UInt64.ofNat (behind * 7)).toNat = word.toNat >>> (behind * 7) := by
    rw [UInt64.toNat_shiftRight, UInt64.toNat_ofNat']
    congr 1
    omega
  have low := toNat_low (word >>> UInt64.ofNat (behind * 7))
  rw [shifted] at low
  apply UInt8.toNat.inj
  rw [UInt8.toNat_ofNat', digit]
  split
  · rw [toNat_flagged (by omega), low]
    omega
  · rw [low]
    omega

theorem encodeWord_eq (word : UInt64) : encodeWord word = encode word.toNat := by
  have bits : bitCount word ≤ 64 := Nat.sub_le _ _
  obtain ⟨count, counted⟩ : ∃ count, digitCount word = count + 1 :=
    ⟨digitCount word - 1, by simp only [digitCount]; omega⟩
  have enough : bitCount word ≤ (count + 1) * 7 := by
    simp only [digitCount] at counted
    omega
  -- A byte is in front of others only if the word has bits for it, so no shift reaches 64.
  have needed : ∀ behind < count, (behind + 1) * 7 < bitCount word := by
    intro behind inside
    simp only [digitCount] at counted
    omega
  have ends : (word.toNat / 128) >>> (count * 7) = 0 := by
    rw [div_shiftRight]
    exact shiftRight_eq_zero_iff.mpr enough
  have filled : ∀ behind < count, (word.toNat / 128) >>> (behind * 7) ≠ 0 := by
    intro behind inside
    rw [div_shiftRight]
    exact mt shiftRight_eq_zero_iff.mp (Nat.not_le.mpr (needed behind inside))
  have front : leading (word.toNat / 128) = (List.range count).reverse.map
      fun behind => digit word (behind + 1) := by
    rw [leading_eq_map ends filled]
    apply List.map_congr_left
    intro behind listed
    have inside : behind < count := by simpa using listed
    have shift := needed behind inside
    rw [digit_eq (by omega), div_shiftRight, if_pos (Nat.zero_lt_succ behind)]
  rw [encodeWord, counted, List.range_succ_eq_map, List.reverse_cons, List.map_append,
    ← List.map_reverse, List.map_map, encode, front, List.map_singleton, digit_eq (by decide)]
  rfl

theorem flag_iff : byte &&& 0x80 = 0 ↔ byte < 128 := by
  have all : ∀ bits : BitVec 8, bits &&& 0x80#8 = 0#8 ↔ bits < 128#8 := by decide
  exact UInt8.toBitVec_inj.symm.trans (all byte.toBitVec)

theorem full_iff : (0xFFFFFFFFFFFFFFFF : UInt64) >>> 7 < word ↔ limit ≤ word.toNat :=
  UInt64.lt_iff_toNat_lt

theorem toNat_next (room : word.toNat < limit) :
    (word <<< 7 ||| (byte &&& 0x7F).toUInt64).toNat = word.toNat * 128 + byte.toNat % 128 := by
  have low : (byte &&& 0x7F).toNat = byte.toNat % 128 :=
    Nat.and_two_pow_sub_one_eq_mod byte.toNat 7
  have small : byte.toNat % 128 < 2 ^ 7 := Nat.mod_lt _ (by decide)
  have kept : word.toNat <<< 7 < UInt64.size := by
    simp only [limit, UInt64.size, Nat.shiftLeft_eq] at room ⊢
    omega
  have shifted : (word <<< 7).toNat = word.toNat <<< 7 := by
    rw [UInt64.toNat_shiftLeft]
    exact Nat.mod_eq_of_lt kept
  rw [UInt64.toNat_or, shifted, UInt8.toNat_toUInt64, low, ← Nat.shiftLeft_add_eq_or_of_lt small,
    Nat.shiftLeft_eq]

theorem readWordFrom_eq (word : UInt64) (size : Nat) (bytes : Bytes) :
    readWordFrom word size bytes = readFrom word.toNat size bytes := by
  induction bytes generalizing word size with
  | nil => rfl
  | cons byte rest ih =>
      simp only [readWordFrom, readFrom, full_iff, flag_iff]
      split
      · rfl
      · rename_i room
        rw [ih, toNat_next (Nat.lt_of_not_le room)]

theorem run_group_of_closed {rest : Bytes} (divided : buffer.rest = group ++ rest)
    (closed : Closed group) (small : valueOf group < UInt64.size) :
    (Program.read .group).run buffer =
      (.ok (.number (valueOf group)), buffer.seek (buffer.offset + group.length)) := by
  rw [Program.run, Read.run_eq_ok_iff]
  exact ⟨group, .group closed small, Buffer.passes_of_rest divided⟩

theorem run_group_of_overlong (overlong : Overlong 0 buffer.rest) :
    (Program.read .group).run buffer =
      (.error (.malformedBer (.overflow buffer.offset)), buffer) := by
  rw [Program.run, Read.run, Buffer.group, read_of_overlong overlong]
  rfl

theorem run_group_of_continued (continued : Continued buffer.rest)
    (room : ¬ Overlong 0 buffer.rest) :
    (Program.read .group).run buffer = (.error .outOfBounds, buffer) := by
  rw [Program.run, Read.run, Buffer.group, read_of_continued continued room]
  rfl

/-- Every word is read back from what is written for it, which has no padding and is as short as any
group of the same number.  Whatever bytes are in front of the offset, a group that ends with a number
of 64 bits is read with that number.  Any other is not passed: it is too large if a byte of it stands
behind a number that has no room for seven more bits, and else the data end inside of it. -/
theorem words_are_exact_groups (word : UInt64) (front behind : Bytes) (buffer : Buffer) :
    let read := (Program.read .group).run
    let form := encodeWord word
    let written := front ++ (form ++ behind)
    let outgrown := ∃ before byte later, buffer.rest = before ++ byte :: later ∧
      Continued before ∧ 2 ^ 57 ≤ valueOf before
    (form = encode word.toNat ∧ readWord buffer.rest = Base128.read buffer.rest) ∧
    read ⟨written, front.length⟩ =
      (.ok (.number word.toNat), ⟨written, front.length + form.length⟩) ∧
    form.head? ≠ some 0x80 ∧
    (∀ group, Closed group → valueOf group = word.toNat → form.length ≤ group.length) ∧
    (∀ group rest, buffer.rest = group ++ rest → Closed group → valueOf group < 2 ^ 64 →
      read buffer = (.ok (.number (valueOf group)), ⟨buffer.bytes, buffer.offset + group.length⟩)) ∧
    ((∀ group rest, buffer.rest = group ++ rest → Closed group → 2 ^ 64 ≤ valueOf group) →
      (outgrown → read buffer = (.error (.malformedBer (.overflow buffer.offset)), buffer)) ∧
      (¬ outgrown → Continued buffer.rest ∧ read buffer = (.error .outOfBounds, buffer))) := by
  intro read form written outgrown
  have encoded : form = encode word.toNat := encodeWord_eq word
  have number_lt : word.toNat < UInt64.size := word.toNat_lt
  obtain ⟨closed, number⟩ := closed_encode number_lt
  have readBack : read ⟨written, front.length⟩ =
      (.ok (.number word.toNat), ⟨written, front.length + form.length⟩) := by
    have divided : (Buffer.mk written front.length).rest = encode word.toNat ++ behind := by
      rw [Buffer.rest, List.drop_left, encoded]
    have ran := run_group_of_closed divided closed (by rwa [number])
    rwa [number, ← encoded] at ran
  have unpadded : form.head? ≠ some 0x80 := by
    rw [encoded]
    exact head?_encode word.toNat
  have shortest : ∀ group, Closed group → valueOf group = word.toNat →
      form.length ≤ group.length := by
    intro group closed same
    have least := length_encode_le closed (by rwa [same])
    rwa [same, ← encoded] at least
  have passed : ∀ group rest, buffer.rest = group ++ rest → Closed group → valueOf group < 2 ^ 64 →
      read buffer =
        (.ok (.number (valueOf group)), ⟨buffer.bytes, buffer.offset + group.length⟩) :=
    fun _ _ divided closed small => run_group_of_closed divided closed small
  refine ⟨⟨encoded, readWordFrom_eq 0 0 buffer.rest⟩, readBack, unpadded, shortest, passed, ?_⟩
  intro large
  refine ⟨fun overlong => run_group_of_overlong overlong, fun room => ?_⟩
  have continued : Continued buffer.rest := by
    rcases closed_or_continued buffer.rest with ⟨group, rest, divided, closed⟩ | continued
    · have overlong := (closed.overlong (large group rest divided closed)).append rest
      rw [← divided] at overlong
      exact absurd overlong room
    · exact continued
  exact ⟨continued, run_group_of_continued continued room⟩

/-- A group that grew too large and does not end either is told as too large. -/
example : (Program.read .group).run ⟨List.replicate 12 0xFF, 2⟩ =
    (.error (.malformedBer (.overflow 2)), ⟨List.replicate 12 0xFF, 2⟩) := by
  rfl

end CompactOid.Base128
