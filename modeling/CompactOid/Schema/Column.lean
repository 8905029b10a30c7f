import CompactOid.Fault
import CompactOid.Schema.ValueSyntax

namespace CompactOid.Schema.Column

/-- The numbers below are not negative. -/
def half : Nat := UInt32.size / 2

def signedDigits (value : UInt32) : List Char :=
  if value.toNat < half then Decimal.digits value.toNat
  else '-' :: Decimal.digits (UInt32.size - value.toNat)

def ofSignedDigits? : List Char → Option UInt32
  | '-' :: digits =>
      match Decimal.value? digits with
      | some size =>
          if 0 < size ∧ size ≤ half then some (UInt32.ofNat (UInt32.size - size)) else none
      | none => none
  | digits =>
      match Decimal.value? digits with
      | some value => if value < half then some (UInt32.ofNat value) else none
      | none => none

/-- The column that holds the attribute of this reference and syntax. -/
def name (subject : Reference) (kind : ValueSyntax) : String :=
  String.ofList ('A' :: 'T' :: 'T' :: kind.letter :: signedDigits subject.value)

def ofChars? : List Char → Option (ValueSyntax × Reference)
  | 'A' :: 'T' :: 'T' :: letter :: number => do
      let kind ← ValueSyntax.ofLetter? letter
      let value ← ofSignedDigits? number
      return (kind, ⟨value⟩)
  | _ => none

def parse (name : String) : Except Fault (ValueSyntax × Reference) :=
  match ofChars? name.toList with
  | some column => .ok column
  | none => .error (.invalidColumnName name)

end CompactOid.Schema.Column
