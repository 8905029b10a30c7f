namespace CompactOid

/-- Which entries answer when a custom entry collides with a reserved one. -/
inductive Policy where
  | customOverrides
  | reservedWins
deriving DecidableEq, Repr

structure Config where
  policy : Policy
  /-- Whether bytes behind the last record of a map are tolerated. -/
  allowTrailing : Bool
deriving DecidableEq, Repr

namespace Config

def strict : Config :=
  ⟨.customOverrides, false⟩

def lenient : Config :=
  ⟨.customOverrides, true⟩

instance : Inhabited Config := ⟨strict⟩

end Config

end CompactOid
