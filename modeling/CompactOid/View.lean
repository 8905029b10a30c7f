import CompactOid.Oid.Dotted
import CompactOid.Table

namespace CompactOid

/-! A table together with the reserved entries, under one policy.

References are expanded to identifiers and identifiers compressed to references
by exact match: an identifier has a reference only if the one above it has a
code.  A code that the other half takes over is not answered with.
-/

structure View where
  custom : Table
  policy : Policy

namespace View

/-- The identifier of a code, from the half that the policy asks first. -/
def oid? (view : View) (code : Code) : Option Oid :=
  match view.policy with
  | .customOverrides => (view.custom.oid? code).or (Reserved.oid? code)
  | .reservedWins => (Reserved.oid? code).or (view.custom.oid? code)

/-- The code of an identifier, from the half that the policy asks first. -/
def code? (view : View) (oid : Oid) : Option Code :=
  match view.policy with
  | .customOverrides =>
      (view.custom.code? oid).or
        ((Reserved.code? oid).filter fun code => !view.custom.contains code)
  | .reservedWins =>
      (Reserved.code? oid).or
        ((view.custom.code? oid).filter fun code => !Reserved.contains code)

/-- What a reference stands for: the identifier of its code and one arc more. -/
def expand (view : View) (reference : Reference) : Except Fault Oid :=
  match view.oid? reference.code with
  | none => .error (.unknown (.code reference))
  | some oid => .ok (oid.child reference.item.toUInt32)

/-- The reference of an identifier, if the one above it has a code. -/
def compress (view : View) (oid : Oid) : Except Fault Reference :=
  match oid.splitLast? with
  | none => .error (.unknown .emptyOid)
  | some (parent, last) =>
      if UInt16.size ≤ last.toNat then .error (.arcOutOfRange last.toNat)
      else match view.code? parent with
        | none => .error (.unknown (.parentOf oid))
        | some code => .ok (.ofParts code last.toUInt16)

def decode (view : View) (reference : Reference) : Except Fault String :=
  (view.expand reference).map Oid.text

def encode (view : View) (text : String) : Except Fault Reference := do
  view.compress (← Oid.parse text)

end View

end CompactOid
