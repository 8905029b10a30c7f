import CompactOid.Oid.Basic
import CompactOid.Reference

namespace CompactOid

/-! Every way an operation can fail, with the data that caused it.

Faults are compared as data.  Their wording is kept apart, in the `message`
functions below.
-/

inductive ArcRule where
  | tooFew (count : Nat)
  | secondTooLarge (first second : Arc)
  | unknownRoot (first : Arc)
deriving DecidableEq, Repr

def ArcRule.message : ArcRule → String
  | .tooFew count => s!"need at least two arcs, got {Decimal.text count}"
  | .secondTooLarge first second =>
      s!"second arc {Decimal.text second.toNat} exceeds 39 under root {Decimal.text first.toNat}"
  | .unknownRoot first => s!"first arc must be 0, 1 or 2, got {Decimal.text first.toNat}"

/-- Why a byte string is no BER form.  Offsets are those of the group at fault. -/
inductive BerFlaw where
  | empty
  | cutOff (offset : Nat)
  | overflow (offset : Nat)
  | wideArc (value offset : Nat)
deriving DecidableEq, Repr

def BerFlaw.message : BerFlaw → String
  | .empty => "empty OID encoding"
  | .cutOff offset =>
      s!"group starting at offset {Decimal.text offset} is cut off by the end of the data"
  | .overflow offset =>
      s!"base-128 group starting at offset {Decimal.text offset} overflows 64 bits"
  | .wideArc value offset =>
      s!"arc {Decimal.text value} at offset {Decimal.text offset} does not fit into 32 bits"

inductive Truncation where
  | header (available : Nat)
  | recordHeader (index offset available : Nat)
  | recordBody (index declared remaining : Nat)
deriving DecidableEq, Repr

def Truncation.message : Truncation → String
  | .header available => s!"{Decimal.text available} bytes cannot hold the 8 byte header"
  | .recordHeader index offset available =>
      s!"record #{Decimal.text index} header at offset {Decimal.text offset} runs past the end of {Decimal.text available} bytes"
  | .recordBody index declared remaining =>
      s!"record #{Decimal.text index} declares {Decimal.text declared} OID bytes, only {Decimal.text remaining} remain"

inductive EntryFlaw where
  | emptyOid (code : Code)
  | malformedOid (code : Code) (flaw : BerFlaw)
  | longOid (size : Nat)
  | longMap
  | tooManyEntries
deriving DecidableEq, Repr

inductive Unknown where
  | code (reference : Reference)
  | parentOf (oid : Oid)
  | emptyOid
deriving DecidableEq, Repr

def Unknown.message : Unknown → String
  | .code reference => s!"{Code.text reference.code} in {reference.text}"
  | .parentOf oid => s!"no prefix for the parent of {oid.text}"
  | .emptyOid => "empty OID"

inductive Fault where
  | malformedBer (flaw : BerFlaw)
  | invalidArcs (rule : ArcRule)
  | truncatedMap (truncation : Truncation)
  | lengthMismatch (declared spanned available : Nat)
  | invalidEntry (index : Nat) (flaw : EntryFlaw)
  | unknown (subject : Unknown)
  | arcOutOfRange (value : Nat)
  | invalidDotted (text : String)
  | outOfBounds
  | codeTaken (code : Code)
  | codesExhausted
  | invalidColumnName (name : String)
deriving DecidableEq, Repr

namespace Fault

/-- Without the file and the line of the program where the flaw was found, which a text for readers
has in front of the flaw.  The text of an entry that has the flaw leaves them out as well. -/
def berMessage (flaw : BerFlaw) : String :=
  s!"Malformed BER encoding - {flaw.message}"

def entryMessage : EntryFlaw → String
  | .emptyOid code => s!"prefix {Code.text code} has an empty OID"
  | .malformedOid code flaw => s!"prefix {Code.text code} - {berMessage flaw}"
  | .longOid size => s!"encoded OID prefix of {Decimal.text size} bytes exceeds 65535"
  | .longMap => "prefixMap would exceed the 32-bit length field"
  | .tooManyEntries => "too many entries for a prefixMap"

def message : Fault → String
  | .malformedBer flaw => berMessage flaw
  | .invalidArcs rule => s!"Invalid arc sequence - {rule.message}"
  | .truncatedMap truncation => s!"Truncated prefixMap - {truncation.message}"
  | .lengthMismatch declared spanned available =>
      s!"prefixMap length mismatch - declared {Decimal.text declared}, records span {Decimal.text spanned}, buffer holds {Decimal.text available}"
  | .invalidEntry index flaw =>
      s!"Invalid prefixMap entry #{Decimal.text index} - {entryMessage flaw}"
  | .unknown subject => s!"Unknown prefix - {subject.message}"
  | .arcOutOfRange value => s!"Arc out of range - {Decimal.text value}"
  | .invalidDotted text => s!"Invalid OID syntax - '{text}'"
  | .outOfBounds => "Out of Bound access would have occurred!"
  | .codeTaken code => s!"Prefix {Code.text code} is already assigned"
  | .codesExhausted => "No free prefix code left"
  | .invalidColumnName name => s!"Invalid column name - '{name}'"

end Fault

end CompactOid
