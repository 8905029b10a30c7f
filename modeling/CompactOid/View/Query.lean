import CompactOid.View

namespace CompactOid.View

inductive Query where
  | oid (code : Code)
  | code (oid : Oid)
  | expand (reference : Reference)
  | compress (oid : Oid)
  | decode (reference : Reference)
  | encode (text : String)
deriving DecidableEq, Repr

inductive Answer where
  | oid? (found : Option Oid)
  | code? (found : Option Code)
  | oid (result : Oid)
  | reference (result : Reference)
  | text (result : String)
deriving DecidableEq, Repr

def ask (view : View) : Query → Except Fault Answer
  | .oid code => .ok (.oid? (view.oid? code))
  | .code oid => .ok (.code? (view.code? oid))
  | .expand reference => (view.expand reference).map .oid
  | .compress oid => (view.compress oid).map .reference
  | .decode reference => (view.decode reference).map .text
  | .encode text => (view.encode text).map .reference

end CompactOid.View
