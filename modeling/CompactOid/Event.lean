import CompactOid.Entry

namespace CompactOid

inductive Level where
  | trace
  | debug
  | warn
deriving DecidableEq, Repr

inductive Event where
  | recordRead (index : Nat) (entry : Entry)
  | mapRead (count size : Nat)
  | mapWritten (count size : Nat)
  | duplicateIgnored (entry : Entry)
  | reservedCodeReused (entry : Entry)
  | reservedOidRepeated (entry : Entry) (reserved : Code)
  | tablePublished (count : Nat)
deriving DecidableEq, Repr

namespace Event

def level : Event → Level
  | .recordRead .. => .trace
  | .mapRead .. | .mapWritten .. | .tablePublished .. => .debug
  | .duplicateIgnored .. | .reservedCodeReused .. | .reservedOidRepeated .. => .warn

def message : Event → String
  | .recordRead index entry => s!"prefixMap record #{Decimal.text index}: {entry.text}"
  | .mapRead count size =>
      s!"parsed prefixMap with {Decimal.text count} entries ({Decimal.text size} bytes)"
  | .mapWritten count size =>
      s!"serialized prefixMap with {Decimal.text count} entries ({Decimal.text size} bytes)"
  | .duplicateIgnored entry => s!"ignoring duplicate prefix {entry.text}"
  | .reservedCodeReused entry => s!"custom prefix {entry.text} reuses a built-in code"
  | .reservedOidRepeated entry reserved =>
      s!"custom prefix {Code.text entry.code} duplicates built-in prefix {Code.text reserved} ({entry.oid.text})"
  | .tablePublished count =>
      s!"publishing prefix table with {Decimal.text count} custom entries"

end Event

/-- A value and the events on the way to it, in order. -/
structure Logged (α : Type) where
  value : α
  events : List Event

namespace Logged

variable {α β ε : Type}

def silent (value : α) : Logged α :=
  ⟨value, []⟩

def map (change : α → β) (logged : Logged α) : Logged β :=
  ⟨change logged.value, logged.events⟩

/-- The events of the first step come before those of the second. -/
def bind (logged : Logged α) (next : α → Logged β) : Logged β :=
  let later := next logged.value
  ⟨later.value, logged.events ++ later.events⟩

/-- Goes on only from a result; a fault ends the way, with the events so far. -/
def andThen (logged : Logged (Except ε α)) (next : α → Logged (Except ε β)) :
    Logged (Except ε β) :=
  logged.bind fun
    | .error fault => silent (.error fault)
    | .ok value => next value

end Logged

end CompactOid
