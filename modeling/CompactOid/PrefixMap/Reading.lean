import CompactOid.Event
import CompactOid.Oid.Ber
import CompactOid.PrefixMap.Framing

namespace CompactOid.PrefixMap

def entryOf (index : Nat) (frame : Frame) : Except Fault Entry :=
  if frame.body.isEmpty then .error (.invalidEntry index (.emptyOid frame.code))
  else match Oid.ofBer frame.body with
    | .ok oid => .ok ⟨frame.code, oid⟩
    | .error flaw => .error (.invalidEntry index (.malformedOid frame.code flaw))

variable {α ε : Type}

/-- The values in front of the first fault, and that fault if there is one. -/
def untilFault (results : List (Except ε α)) : List α × Option ε :=
  results.foldr
    (fun result later => match result with
      | .ok value => (value :: later.1, later.2)
      | .error fault => ([], some fault))
    ([], none)

/-- The entries of a map in the order of its records, repeated codes included. -/
def read (config : Config) (data : Bytes) : Logged (Except Fault (List Entry)) :=
  match Frame.ofMap config data with
  | .error fault => .silent (.error fault)
  | .ok frames =>
      let (entries, fault?) := untilFault (frames.mapIdx entryOf)
      let records := entries.mapIdx Event.recordRead
      match fault? with
      | some fault => ⟨.error fault, records⟩
      | none => ⟨.ok entries, records ++ [.mapRead entries.length (Frame.mapSize frames)]⟩

end CompactOid.PrefixMap
