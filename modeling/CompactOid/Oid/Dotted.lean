import CompactOid.Fault

namespace CompactOid.Oid

/-- A numeral is read as a word of 64 bits first, and then narrowed to an arc. -/
def parseArc (text : String) (component : List Char) : Except Fault Arc :=
  if Decimal.isNumeral component then
    match Decimal.word? component with
    | none => .error (.arcOutOfRange (UInt64.size - 1))
    | some word =>
        if word.toNat < UInt32.size then .ok word.toUInt32
        else .error (.arcOutOfRange word.toNat)
  else .error (.invalidDotted text)

/-- The identifier of a dotted text; reading stops at the leftmost component at fault. -/
def parse (text : String) : Except Fault Oid := do
  let arcs ← (Fields.split '.' text.toList).mapM (parseArc text)
  if arcs.length < 2 then .error (.invalidDotted text)
  else return ⟨arcs⟩

end CompactOid.Oid
