import CompactOid.PrefixMap.Reading
import CompactOid.PrefixMap.Writing
import CompactOid.Reserved
import Std.Data.TreeMap
import Std.Data.TreeMap.Lemmas

namespace CompactOid

/-! Tables of custom entries.

The entries keep the order in which they came, and two maps beside them answer
in both directions.  `Table.empty` and `Table.push` are the only ways to build a
table, and every other module goes through them.
-/

structure Table where
  entries : Array Entry
  /-- Where the entry of a code stands among the entries. -/
  places : Std.TreeMap Code Nat
  /-- The code of the first entry of an identifier. -/
  codes : Std.TreeMap (List Arc) Code

namespace Table

def empty : Table :=
  ⟨#[], ∅, ∅⟩

instance : Inhabited Table := ⟨empty⟩

def size (table : Table) : Nat :=
  table.entries.size

/-- The identifier of the entry at the place of the code. -/
def oid? (table : Table) (code : Code) : Option Oid := do
  let place ← table.places[code]?
  let entry ← table.entries[place]?
  return entry.oid

/-- The code of the first entry with the identifier. -/
def code? (table : Table) (oid : Oid) : Option Code :=
  table.codes[oid.arcs]?

def contains (table : Table) (code : Code) : Bool :=
  table.places.contains code

/-- Puts an entry behind the others.  Its code must be a new one; its identifier need not be. -/
def push (table : Table) (entry : Entry) : Table :=
  let places := table.places.insert entry.code table.entries.size
  let codes := table.codes.insertIfNew entry.oid.arcs entry.code
  ⟨table.entries.push entry, places, codes⟩

/-- The first entry of a code stays, later ones are dropped. -/
def accept (table : Table) (entry : Entry) : Table :=
  if table.contains entry.code then table else table.push entry

def remarks (table : Table) (entry : Entry) : List Event :=
  if table.contains entry.code then [.duplicateIgnored entry]
  else
    (if (Reserved.oid? entry.code).isSome then [.reservedCodeReused entry] else []) ++
      ((Reserved.code? entry.oid).map (Event.reservedOidRepeated entry)).toList

/-- The table of entries taken in order, with what is to be said about each. -/
def ofEntries (entries : List Entry) : Logged Table :=
  let (table, events) := entries.foldl
    (fun (table, events) entry =>
      let said := table.remarks entry
      (table.accept entry, events ++ said))
    (empty, #[])
  ⟨table, events.toList⟩

/-- The table of a map.  Remarks on its entries follow the events of reading it. -/
def ofMap (config : Config) (data : Bytes) : Logged (Except Fault Table) :=
  (PrefixMap.read config data).andThen fun entries => (ofEntries entries).map .ok

def toMap (table : Table) : Logged (Except Fault Bytes) :=
  PrefixMap.write table.entries.toList

end Table

end CompactOid
