import CompactOid.PrefixMap.Framing

namespace CompactOid

/-! Cutting a prefix map while its length is added up.

The length that is compared in the end is not read off the cursor: it is the sum
of what the records state, and it is kept beside the cursor, as is the number of
the record.  Each record that the header counts has a turn, and the walk is over
with the first turn whose record does not fit.
-/

/-- What a turn begins with. -/
structure Tally where
  /-- The number of the record that is next. -/
  index : Nat
  cursor : Cursor
  /-- The length of the map up to here, added up from what the records state. -/
  spanned : Nat
  /-- The frames passed so far, latest first. -/
  frames : List Frame
deriving DecidableEq, Repr

namespace Tally

/-- At the first record, behind the header. -/
def start (cursor : Cursor) : Tally :=
  ⟨0, cursor, Frame.mapHeaderSize, []⟩

/-- One turn of a map that has this many bytes. -/
def step (available : Nat) (tally : Tally) : Except Fault Tally :=
  match Walk.recordHeader? tally.cursor with
  | none =>
      .error (.truncatedMap (.recordHeader tally.index tally.cursor.position available))
  | some ((code, size), behindHeader) =>
      match behindHeader.take? size with
      | none => .error (.truncatedMap (.recordBody tally.index size behindHeader.remaining))
      | some (body, behindRecord) =>
          .ok ⟨tally.index + 1, behindRecord, tally.spanned + (Frame.headerSize + size),
            ⟨code, body⟩ :: tally.frames⟩

/-- What the turns begin with, in order, and what the last of them leads to. -/
def run (available : Nat) : Nat → Tally → List Tally × Except Fault Tally
  | 0, tally => ([], .ok tally)
  | count + 1, tally =>
      match tally.step available with
      | .error fault => ([tally], .error fault)
      | .ok next =>
          let (later, outcome) := run available count next
          (tally :: later, outcome)

/-- The frames, if the length that was added up agrees with the others. -/
def finish (config : Config) (declared available : Nat) (tally : Tally) :
    Except Fault (List Frame) :=
  if Frame.lengthsAgree config declared tally.spanned available then .ok tally.frames.reverse
  else .error (.lengthMismatch declared tally.spanned available)

end Tally

namespace Frame

/-- The turns that a map takes, and its frames, if all of them lie within the data and the lengths
agree. -/
def tallyMap (config : Config) (data : Bytes) : List Tally × Except Fault (List Frame) :=
  match mapHeader? data with
  | none => ([], .error (.truncatedMap (.header data.length)))
  | some ((count, declared), cursor) =>
      let (turns, outcome) := Tally.run data.length count (Tally.start cursor)
      (turns, outcome.bind (Tally.finish config declared data.length))

end Frame

end CompactOid
