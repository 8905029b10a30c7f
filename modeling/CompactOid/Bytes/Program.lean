import CompactOid.Bytes.Buffer

namespace CompactOid

inductive Read where
  | word (width : Width)
  | bytes (count : Nat)
  | group
deriving DecidableEq, Repr

inductive Program where
  | read (request : Read)
  | sequence (parts : List Program)
  | transaction (parts : List Program)

/-- What a program found, one value for each part of a sequence. -/
inductive Found where
  | number (value : Nat)
  | bytes (value : Bytes)
  | sequence (values : List Found)

def Read.run (buffer : Buffer) : Read → Except Fault Found × Buffer
  | .word width => (buffer.read width).map (Except.map .number) id
  | .bytes count => (buffer.take count).map (Except.map .bytes) id
  | .group => buffer.group.map (Except.map .number) id

namespace Program

mutual

/-- What a program answers, and the buffer that it leaves. -/
def run : Program → Buffer → Except Fault Found × Buffer
  | .read request, buffer => request.run buffer
  | .sequence parts, buffer =>
      match runAll parts buffer with
      | (.ok values, after) => (.ok (.sequence values), after)
      | (.error fault, after) => (.error fault, after)
  | .transaction parts, buffer =>
      match runAll parts buffer with
      | (.ok values, after) => (.ok (.sequence values), after)
      | (.error fault, after) => (.error fault, after.seek buffer.offset)

/-- Runs programs one after the other, up to the first fault. -/
def runAll : List Program → Buffer → Except Fault (List Found) × Buffer
  | [], buffer => (.ok [], buffer)
  | part :: later, buffer =>
      match run part buffer with
      | (.error fault, after) => (.error fault, after)
      | (.ok found, after) =>
          match runAll later after with
          | (.error fault, last) => (.error fault, last)
          | (.ok values, last) => (.ok (found :: values), last)

end

end Program

end CompactOid
