import CompactOid.Bytes.Cursor
import CompactOid.Fault

namespace CompactOid.Oid

/-! The BER form of object identifiers.

The first two arcs share one group, every later arc has a group of its own.
`toBer` writes shortest groups only, `ofBer` takes padded ones by their value.
-/

def leadingValue (first second : Arc) : Except ArcRule Nat :=
  if first.toNat < 2 then
    if 39 < second.toNat then .error (.secondTooLarge first second)
    else .ok (40 * first.toNat + second.toNat)
  else if first.toNat = 2 then .ok (80 + second.toNat)
  else .error (.unknownRoot first)

/-- The BER form, if the arcs obey the rules for the first two. -/
def toBer (oid : Oid) : Except ArcRule Bytes :=
  match oid.arcs with
  | first :: second :: later =>
      match leadingValue first second with
      | .error rule => .error rule
      | .ok value =>
          .ok (Base128.encode value ++ later.flatMap fun arc => Base128.encode arc.toNat)
  | few => .error (.tooFew few.length)

/-- The arc of a value, if it has 32 bits; the offset is that of its group. -/
def narrow (value offset : Nat) : Except BerFlaw Arc :=
  if value < UInt32.size then .ok (UInt32.ofNat value)
  else .error (.wideArc value offset)

def leadingArcs (value : Nat) : Except BerFlaw (Arc × Arc) := do
  if value < 80 then
    return (UInt32.ofNat (value / 40), UInt32.ofNat (value % 40))
  else
    return (2, ← narrow (value - 80) 0)

/-- The next group, its flaws told with the offset it starts at. -/
def berGroup (cursor : Cursor) : Except BerFlaw (Nat × Cursor) :=
  match cursor.group with
  | .ok found => .ok found
  | .error .cutOff => .error (.cutOff cursor.position)
  | .error .overflow => .error (.overflow cursor.position)

theorem berGroup_rest_lt {cursor after : Cursor} {value : Nat}
    (found : berGroup cursor = .ok (value, after)) :
    after.rest.length < cursor.rest.length := by
  unfold berGroup at found
  split at found
  case h_1 reading => cases found; exact Cursor.group_rest_lt reading
  all_goals contradiction

/-- One arc for each group up to the end, behind the arcs found before, latest first. -/
def laterArcs (found : List Arc) (cursor : Cursor) : Except BerFlaw (List Arc) :=
  if cursor.rest.isEmpty then .ok found.reverse
  else match _ : berGroup cursor with
    | .error flaw => .error flaw
    | .ok (value, after) =>
        match narrow value cursor.position with
        | .error flaw => .error flaw
        | .ok arc => laterArcs (arc :: found) after
termination_by cursor.rest.length
decreasing_by exact berGroup_rest_lt ‹_›

/-- The identifier of a BER form, which may be padded but not be empty. -/
def ofBer (data : Bytes) : Except BerFlaw Oid := do
  if data.isEmpty then .error .empty
  else
    let (value, after) ← berGroup (Cursor.ofBytes data)
    let (first, second) ← leadingArcs value
    return ⟨← laterArcs [second, first] after⟩

end CompactOid.Oid
