import CompactOid.Text.Decimal
import CompactOid.Text.Hex

namespace CompactOid

/-! Compact references to schema objects.

A reference is a 32-bit number.  Its high half is a code that stands for an
object identifier, its low half is the arc that follows that identifier.
-/

/-- The number standing for a whole identifier in the high half of a reference. -/
abbrev Code := UInt16

namespace Code

def text (code : Code) : String :=
  Hex.text 4 code.toNat

end Code

structure Reference where
  value : UInt32
deriving DecidableEq, Repr, Inhabited

namespace Reference

def ofParts (code : Code) (item : UInt16) : Reference :=
  ⟨UInt32.ofNat (code.toNat * 65536 + item.toNat)⟩

def code (reference : Reference) : Code :=
  UInt16.ofNat (reference.value.toNat / 65536)

def item (reference : Reference) : UInt16 :=
  UInt16.ofNat (reference.value.toNat % 65536)

def text (reference : Reference) : String :=
  Hex.text 8 reference.value.toNat

def description (reference : Reference) : String :=
  s!"AttrTyp({reference.text}, prefix: {Code.text reference.code}, item: {Decimal.text reference.item.toNat})"

end Reference

end CompactOid
