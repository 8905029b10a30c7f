import CompactOid.Bytes.LittleEndian

namespace CompactOid.Base128

/-! Base-128 groups.

A group holds a number seven bits to a byte, most significant first, and every
byte of it but the last has its high bit set.  `encode` writes the shortest
group of a number; `read` takes any group, padded ones included, as long as the
value fits into 64 bits.
-/

/-- The bytes in front of the last one, for what the last one leaves over. -/
def leading (value : Nat) : Bytes :=
  if value = 0 then []
  else leading (value / 128) ++ [UInt8.ofNat (value % 128 + 128)]
termination_by value

def encode (value : Nat) : Bytes :=
  leading (value / 128) ++ [UInt8.ofNat (value % 128)]

inductive Flaw where
  | cutOff
  | overflow
deriving DecidableEq, Repr

/-- A group at the front of a byte string: its value, its size, and the bytes behind it. -/
structure Reading where
  value : Nat
  size : Nat
  rest : Bytes
deriving DecidableEq, Repr

/-- No value of at least this size can take another seven bits within 64. -/
def limit : Nat := UInt64.size / 128

/-- Goes on with a group of which the value and the size so far are known. -/
def readFrom (value size : Nat) : Bytes → Except Flaw Reading
  | [] => .error .cutOff
  | byte :: rest =>
      if limit ≤ value then .error .overflow
      else
        let next := value * 128 + byte.toNat % 128
        if byte < 128 then .ok ⟨next, size + 1, rest⟩
        else readFrom next (size + 1) rest

def read (bytes : Bytes) : Except Flaw Reading :=
  readFrom 0 0 bytes

/-- Reading leading bytes takes up the value that they were written for. -/
theorem readFrom_leading (high size : Nat) (tail : Bytes) (small : high < limit) :
    readFrom 0 size (leading high ++ tail) =
      readFrom high (size + (leading high).length) tail := by
  simp only [limit] at small
  induction high using Nat.strongRecOn generalizing tail with
  | ind high ih =>
      rw [leading]
      split
      · simp_all
      · rename_i nonzero
        have byte : (UInt8.ofNat (high % 128 + 128)).toNat = high % 128 + 128 := by
          rw [UInt8.toNat_ofNat']
          omega
        have continues : ¬ UInt8.ofNat (high % 128 + 128) < 128 := by
          rw [UInt8.lt_iff_toNat_lt, byte]
          simp
        rw [List.append_assoc, ih (high / 128) (by omega) _ (by omega)]
        simp only [List.cons_append, List.nil_append, readFrom, byte, continues, limit, if_false,
          List.length_append, List.length_singleton]
        rw [if_neg (by omega)]
        congr 1
        omega

/-- A group is read back whatever comes behind it. -/
theorem read_encode (value : Nat) (rest : Bytes) (small : value < UInt64.size) :
    read (encode value ++ rest) = .ok ⟨value, (encode value).length, rest⟩ := by
  have byte : (UInt8.ofNat (value % 128)).toNat = value % 128 := by
    rw [UInt8.toNat_ofNat']
    omega
  have ends : UInt8.ofNat (value % 128) < 128 := by
    rw [UInt8.lt_iff_toNat_lt, byte]
    exact Nat.mod_lt value (by decide)
  have room : value / 128 < limit := by
    simp only [limit, UInt64.size] at small ⊢
    omega
  unfold read encode
  rw [List.append_assoc, readFrom_leading _ 0 _ room]
  simp only [List.cons_append, List.nil_append, readFrom, byte, ends, if_true]
  rw [if_neg (Nat.not_le.mpr room)]
  simp
  omega

theorem readFrom_rest_lt {value size : Nat} {bytes : Bytes} {reading : Reading}
    (found : readFrom value size bytes = .ok reading) :
    reading.rest.length < bytes.length := by
  induction bytes generalizing value size with
  | nil => simp [readFrom] at found
  | cons byte rest ih =>
      simp only [readFrom] at found
      split at found
      · contradiction
      · split at found
        · cases found
          simp
        · exact Nat.lt_succ_of_lt (ih found)

theorem read_rest_lt {bytes : Bytes} {reading : Reading} (found : read bytes = .ok reading) :
    reading.rest.length < bytes.length :=
  readFrom_rest_lt found

end CompactOid.Base128
