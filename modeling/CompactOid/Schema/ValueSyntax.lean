import CompactOid.Oid.Basic
import CompactOid.Reference

namespace CompactOid.Schema

/-! The syntaxes that the values of attributes have.

Syntax number `N` has the identifier `2.5.5.N`, and its place in the list of
constructors is that number.
-/

inductive ValueSyntax where
  | undefined
  | distinguishedName
  | objectIdentifier
  | caseExactString
  | caseIgnoreString
  | printableString
  | numericString
  | dnBinary
  | boolean
  | integer
  | octetString
  | time
  | unicodeString
  | presentationAddress
  | dnString
  | ntSecurityDescriptor
  | largeInteger
  | sid
deriving DecidableEq, Repr, Inhabited

namespace ValueSyntax

def all : List ValueSyntax :=
  [.undefined, .distinguishedName, .objectIdentifier, .caseExactString, .caseIgnoreString,
   .printableString, .numericString, .dnBinary, .boolean, .integer, .octetString, .time,
   .unicodeString, .presentationAddress, .dnString, .ntSecurityDescriptor, .largeInteger, .sid]

def name : ValueSyntax → String
  | .undefined => "Undefined"
  | .distinguishedName => "DistinguishedName"
  | .objectIdentifier => "ObjectIdentifier"
  | .caseExactString => "CaseExactString"
  | .caseIgnoreString => "CaseIgnoreString"
  | .printableString => "PrintableString"
  | .numericString => "NumericString"
  | .dnBinary => "DnBinary"
  | .boolean => "Boolean"
  | .integer => "Integer"
  | .octetString => "OctetString"
  | .time => "Time"
  | .unicodeString => "UnicodeString"
  | .presentationAddress => "PresentationAddress"
  | .dnString => "DnString"
  | .ntSecurityDescriptor => "NtSecurityDescriptor"
  | .largeInteger => "LargeInteger"
  | .sid => "Sid"

def index (kind : ValueSyntax) : Nat :=
  all.idxOf kind

def ofIndex? (index : Nat) : Option ValueSyntax :=
  all[index]?

/-- The code of `2.5.5`. -/
def code : Code := 8

def reference (kind : ValueSyntax) : Reference :=
  .ofParts code (UInt16.ofNat kind.index)

def ofReference? (reference : Reference) : Option ValueSyntax :=
  if reference.code = code then ofIndex? reference.item.toNat else none

def oid (kind : ValueSyntax) : Oid :=
  ⟨[2, 5, 5, UInt32.ofNat kind.index]⟩

def letter (kind : ValueSyntax) : Char :=
  Char.ofNat ('a'.toNat + kind.index)

/-- The letters count up from the first one, as far as a number of 16 bits can tell. -/
def ofLetter? (letter : Char) : Option ValueSyntax :=
  if 'a' ≤ letter then
    let distance := letter.toNat - 'a'.toNat
    if distance < UInt16.size then ofIndex? distance else none
  else none

end ValueSyntax

end CompactOid.Schema
