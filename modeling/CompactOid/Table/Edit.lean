import CompactOid.Table

namespace CompactOid.Table

/-- Adds an entry under a code that is neither reserved nor in use. -/
def insert (table : Table) (entry : Entry) : Except Fault Unit × Table :=
  if Reserved.contains entry.code || table.contains entry.code then
    (.error (.codeTaken entry.code), table)
  else match table.code? entry.oid with
    | some holder => (.error (.codeTaken holder), table)
    | none =>
        match entry.oid.toBer with
        | .error rule => (.error (.invalidArcs rule), table)
        | .ok _ => (.ok (), table.push entry)

def customCodes : List Code :=
  (List.range' Reserved.count (UInt16.size - Reserved.count)).map UInt16.ofNat

def freeCode? (table : Table) : Option Code :=
  customCodes.find? fun code => !table.contains code

/-- The code of an identifier, which gets an entry if neither half has one. -/
def assign (table : Table) (oid : Oid) : Except Fault Code × Table :=
  match (Reserved.code? oid).or (table.code? oid) with
  | some code => (.ok code, table)
  | none =>
      match table.freeCode? with
      | none => (.error .codesExhausted, table)
      | some code =>
          match table.insert ⟨code, oid⟩ with
          | (.error fault, after) => (.error fault, after)
          | (.ok (), after) => (.ok code, after)

inductive Edit where
  | insert (entry : Entry)
  | assign (oid : Oid)
deriving DecidableEq, Repr

/-- The code that the edit is about or the fault it is refused with, and the table after it. -/
def Edit.run (table : Table) : Edit → Except Fault Code × Table
  | .insert entry =>
      let (answer, after) := table.insert entry
      (answer.map fun _ => entry.code, after)
  | .assign oid => table.assign oid

/-- The table after a sequence of edits, refused ones included. -/
def edit (table : Table) (edits : List Edit) : Table :=
  edits.foldl (fun table edit => (edit.run table).2) table

end CompactOid.Table
