import CompactOid.Bytes.Cursor
import CompactOid.Config
import CompactOid.Fault
import CompactOid.PrefixMap.Frame

namespace CompactOid

/-! Cutting a prefix map into frames.

The walk over the records is bounded by the data: the declared count only says
how many steps are tried, and the first that finds too few bytes ends the walk.
The lengths are compared after the walk, and bodies are not looked into, so a
truncated map is told before a wrong length, and a wrong length before a bad
record.
-/

structure Walk where
  cursor : Cursor
  /-- The frames passed so far, latest first. -/
  frames : List Frame
deriving DecidableEq, Repr

namespace Walk

def recordHeader? (cursor : Cursor) : Option ((Code × Nat) × Cursor) := do
  let (code, cursor) ← cursor.word? .w16
  let (size, cursor) ← cursor.word? .w16
  return ((UInt16.ofNat code, size), cursor)

/-- Passes one record of a map that has this many bytes. -/
def step (available : Nat) (walk : Walk) : Except Fault Walk :=
  match recordHeader? walk.cursor with
  | none =>
      .error (.truncatedMap
        (.recordHeader walk.frames.length walk.cursor.position available))
  | some ((code, size), behindHeader) =>
      match behindHeader.take? size with
      | none =>
          .error (.truncatedMap
            (.recordBody walk.frames.length size behindHeader.remaining))
      | some (body, behindRecord) => .ok ⟨behindRecord, ⟨code, body⟩ :: walk.frames⟩

def steps (available : Nat) : Nat → Walk → Except Fault Walk
  | 0, walk => .ok walk
  | count + 1, walk =>
      match walk.step available with
      | .error fault => .error fault
      | .ok next => steps available count next

end Walk

namespace Frame

/-- The declared count, the declared size, and the cursor at the first record. -/
def mapHeader? (data : Bytes) : Option ((Nat × Nat) × Cursor) := do
  let (count, cursor) ← (Cursor.ofBytes data).word? .w32
  let (declared, cursor) ← cursor.word? .w32
  return ((count, declared), cursor)

/-- Whether a map may have the size that it declares, with these many bytes at hand. -/
def lengthsAgree (config : Config) (declared spanned available : Nat) : Bool :=
  spanned = declared &&
    (spanned = available || (config.allowTrailing && decide (spanned < available)))

/-- The frames of a map, if all of them lie within the data and the lengths agree. -/
def ofMap (config : Config) (data : Bytes) : Except Fault (List Frame) :=
  match mapHeader? data with
  | none => .error (.truncatedMap (.header data.length))
  | some ((count, declared), cursor) =>
      match Walk.steps data.length count ⟨cursor, []⟩ with
      | .error fault => .error fault
      | .ok walk =>
          let frames := walk.frames.reverse
          if lengthsAgree config declared (mapSize frames) data.length then .ok frames
          else .error (.lengthMismatch declared (mapSize frames) data.length)

end Frame

end CompactOid
