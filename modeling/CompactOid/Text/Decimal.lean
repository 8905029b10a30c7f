namespace CompactOid.Decimal

def digits (value : Nat) : List Char :=
  Nat.toDigits 10 value

def text (value : Nat) : String :=
  String.ofList (digits value)

/-- The number a run of digits stands for, leading zeros allowed. -/
def value (digits : List Char) : Nat :=
  Nat.ofDigitChars 10 digits 0

/-- Exactly the forms that `digits` writes. -/
def isNumeral (digits : List Char) : Bool :=
  digits.all Char.isDigit && match digits with
    | [] => false
    | ['0'] => true
    | first :: _ => first != '0'

def value? (digits : List Char) : Option Nat :=
  if isNumeral digits then some (value digits) else none

/-- The machine word that a run of digits stands for, if one is large enough. -/
def word? (digits : List Char) : Option UInt64 :=
  if value digits < UInt64.size then some (UInt64.ofNat (value digits)) else none

end CompactOid.Decimal
