namespace CompactOid

abbrev Bytes := List UInt8

inductive Width where
  | w8
  | w16
  | w32
  | w64
deriving DecidableEq, Repr

def Width.size : Width → Nat
  | .w8 => 1
  | .w16 => 2
  | .w32 => 4
  | .w64 => 8

namespace LittleEndian

/-- The lowest bytes of a value, as many as asked for; what is above them is dropped. -/
def encode : Nat → Nat → Bytes
  | 0, _ => []
  | size + 1, value => UInt8.ofNat value :: encode size (value / 256)

def decode : Bytes → Nat
  | [] => 0
  | byte :: later => byte.toNat + 256 * decode later

@[simp] theorem length_encode (size value : Nat) : (encode size value).length = size := by
  induction size generalizing value with
  | zero => rfl
  | succ size ih => simp [encode, ih]

theorem encode_decode (bytes : Bytes) : encode bytes.length (decode bytes) = bytes := by
  induction bytes with
  | nil => rfl
  | cons byte later ih =>
      have low := byte.toNat_lt
      have head : UInt8.ofNat (byte.toNat + 256 * decode later) = byte := by
        apply UInt8.toNat.inj
        rw [UInt8.toNat_ofNat']
        omega
      have tail : (byte.toNat + 256 * decode later) / 256 = decode later := by omega
      simp only [decode, List.length_cons, encode, head, tail, ih]

end LittleEndian

end CompactOid
