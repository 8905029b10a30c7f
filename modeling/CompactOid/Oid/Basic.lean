import CompactOid.Text.Decimal
import CompactOid.Text.Fields

namespace CompactOid

/-! Object identifiers as sequences of arcs.

An `Oid` may hold any sequence, the empty one included.  Which sequences have a
BER form or a dotted form that reads back is said by the modules of those forms.
-/

abbrev Arc := UInt32

structure Oid where
  arcs : List Arc
deriving DecidableEq, Repr, Inhabited

namespace Oid

/-- Arc by arc, a proper beginning of a sequence comes before it. -/
instance : Ord Oid := ⟨fun left right => compare left.arcs right.arcs⟩

def child (oid : Oid) (arc : Arc) : Oid :=
  ⟨oid.arcs ++ [arc]⟩

def startsWith (oid : Oid) (lead : List Arc) : Bool :=
  lead.isPrefixOf oid.arcs

/-- The identifier one level up and the last arc; none for the empty sequence. -/
def splitLast? (oid : Oid) : Option (Oid × Arc) :=
  oid.arcs.getLast?.map fun last => (⟨oid.arcs.dropLast⟩, last)

/-- The dotted form, arcs in decimal between single dots. -/
def text (oid : Oid) : String :=
  String.ofList (Fields.join '.' (oid.arcs.map fun arc => Decimal.digits arc.toNat))

end Oid

end CompactOid
