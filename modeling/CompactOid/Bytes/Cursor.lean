import CompactOid.Bytes.Base128

namespace CompactOid

structure Cursor where
  position : Nat
  rest : Bytes
deriving DecidableEq, Repr

namespace Cursor

def ofBytes (data : Bytes) : Cursor :=
  ⟨0, data⟩

def remaining (cursor : Cursor) : Nat :=
  cursor.rest.length

/-- The next bytes, as many as asked for; none if fewer remain. -/
def take? (count : Nat) (cursor : Cursor) : Option (Bytes × Cursor) :=
  let taken := cursor.rest.take count
  if taken.length = count then
    some (taken, ⟨cursor.position + count, cursor.rest.drop count⟩)
  else none

/-- The next number of the width; none if fewer bytes remain. -/
def word? (width : Width) (cursor : Cursor) : Option (Nat × Cursor) := do
  let (bytes, after) ← cursor.take? width.size
  return (LittleEndian.decode bytes, after)

def group (cursor : Cursor) : Except Base128.Flaw (Nat × Cursor) := do
  let reading ← Base128.read cursor.rest
  return (reading.value, ⟨cursor.position + reading.size, reading.rest⟩)

theorem group_rest_lt {cursor after : Cursor} {value : Nat}
    (found : cursor.group = .ok (value, after)) : after.rest.length < cursor.rest.length := by
  unfold group at found
  cases reading : Base128.read cursor.rest with
  | error flaw => simp [reading, bind, Except.bind] at found
  | ok result =>
      simp only [reading, bind, Except.bind, pure, Except.pure, Except.ok.injEq,
        Prod.mk.injEq] at found
      rw [← found.2]
      exact Base128.read_rest_lt reading

end Cursor

end CompactOid
