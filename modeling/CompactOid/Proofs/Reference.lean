import CompactOid.Reference

namespace CompactOid.Reference

theorem value_ofParts (code : Code) (item : UInt16) :
    (ofParts code item).value.toNat = code.toNat * 65536 + item.toNat := by
  have high := code.toNat_lt
  have low := item.toNat_lt
  have small : code.toNat * 65536 + item.toNat < UInt32.size := by
    simp only [UInt32.size]
    omega
  exact UInt32.toNat_ofNat_of_lt' small

@[simp] theorem code_ofParts (code : Code) (item : UInt16) : (ofParts code item).code = code := by
  have low := item.toNat_lt
  have half : (code.toNat * 65536 + item.toNat) / 65536 = code.toNat := by omega
  rw [Reference.code, value_ofParts, half]
  exact UInt16.ofNat_toNat

@[simp] theorem item_ofParts (code : Code) (item : UInt16) : (ofParts code item).item = item := by
  have low := item.toNat_lt
  have half : (code.toNat * 65536 + item.toNat) % 65536 = item.toNat := by omega
  rw [Reference.item, value_ofParts, half]
  exact UInt16.ofNat_toNat

end CompactOid.Reference
