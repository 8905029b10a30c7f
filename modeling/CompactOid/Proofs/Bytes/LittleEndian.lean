import CompactOid.Bytes.LittleEndian

namespace CompactOid.LittleEndian

/-- How many numbers have a form of a size. -/
def capacity : Nat → Nat
  | 0 => 1
  | size + 1 => 256 * capacity size

theorem decode_lt (bytes : Bytes) : decode bytes < capacity bytes.length := by
  induction bytes with
  | nil => exact Nat.zero_lt_one
  | cons byte later ih =>
      have low := byte.toNat_lt
      simp only [decode, List.length_cons, capacity]
      omega

theorem decode_encode {size value : Nat} (small : value < capacity size) :
    decode (encode size value) = value := by
  induction size generalizing value with
  | zero =>
      have zero : value = 0 := Nat.lt_one_iff.mp small
      rw [zero]
      rfl
  | succ size ih =>
      simp only [capacity] at small
      have higher : value / 256 < capacity size := by omega
      simp only [encode, decode, ih higher, UInt8.toNat_ofNat']
      omega

theorem encode_inj {size left right : Nat} (same : encode size left = encode size right)
    (small : left < capacity size) (small' : right < capacity size) : left = right := by
  rw [← decode_encode small, same, decode_encode small']

end CompactOid.LittleEndian
