import CompactOid.Oid.Basic
import CompactOid.Reference

namespace CompactOid

structure Entry where
  code : Code
  oid : Oid
deriving DecidableEq, Repr, Inhabited

def Entry.text (entry : Entry) : String :=
  s!"{Code.text entry.code} => {entry.oid.text}"

end CompactOid
