namespace CompactOid.Hex

/-- The digits of a number, filled with leading zeros up to the width. -/
def digits (width value : Nat) : List Char :=
  (Nat.toDigits 16 value).leftpad width '0'

def text (width value : Nat) : String :=
  "0x" ++ String.ofList (digits width value)

end CompactOid.Hex
