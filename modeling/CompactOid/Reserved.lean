import CompactOid.Entry

namespace CompactOid.Reserved

def entries : List Entry :=
  [⟨0x0000, ⟨[2, 5, 4]⟩⟩,
   ⟨0x0001, ⟨[2, 5, 6]⟩⟩,
   ⟨0x0002, ⟨[1, 2, 840, 113556, 1, 2]⟩⟩,
   ⟨0x0003, ⟨[1, 2, 840, 113556, 1, 3]⟩⟩,
   ⟨0x0004, ⟨[2, 16, 840, 1, 101, 2, 2, 1]⟩⟩,
   ⟨0x0005, ⟨[2, 16, 840, 1, 101, 2, 2, 3]⟩⟩,
   ⟨0x0006, ⟨[2, 16, 840, 1, 101, 2, 1, 5]⟩⟩,
   ⟨0x0007, ⟨[2, 16, 840, 1, 101, 2, 1, 4]⟩⟩,
   ⟨0x0008, ⟨[2, 5, 5]⟩⟩,
   ⟨0x0009, ⟨[1, 2, 840, 113556, 1, 4]⟩⟩,
   ⟨0x000A, ⟨[1, 2, 840, 113556, 1, 5]⟩⟩,
   ⟨0x000B, ⟨[1, 2, 840, 113556, 1, 4, 260]⟩⟩,
   ⟨0x000C, ⟨[1, 2, 840, 113556, 1, 5, 56]⟩⟩,
   ⟨0x000D, ⟨[1, 2, 840, 113556, 1, 4, 262]⟩⟩,
   ⟨0x000E, ⟨[1, 2, 840, 113556, 1, 5, 57]⟩⟩,
   ⟨0x000F, ⟨[1, 2, 840, 113556, 1, 4, 263]⟩⟩,
   ⟨0x0010, ⟨[1, 2, 840, 113556, 1, 5, 58]⟩⟩,
   ⟨0x0011, ⟨[1, 2, 840, 113556, 1, 5, 73]⟩⟩,
   ⟨0x0012, ⟨[1, 2, 840, 113556, 1, 4, 305]⟩⟩,
   ⟨0x0013, ⟨[0, 9, 2342, 19200300, 100]⟩⟩,
   ⟨0x0014, ⟨[2, 16, 840, 1, 113730, 3]⟩⟩,
   ⟨0x0015, ⟨[0, 9, 2342, 19200300, 100, 1]⟩⟩,
   ⟨0x0016, ⟨[2, 16, 840, 1, 113730, 3, 1]⟩⟩,
   ⟨0x0017, ⟨[1, 2, 840, 113556, 1, 5, 7000]⟩⟩,
   ⟨0x0018, ⟨[2, 5, 21]⟩⟩,
   ⟨0x0019, ⟨[2, 5, 18]⟩⟩,
   ⟨0x001A, ⟨[2, 5, 20]⟩⟩,
   ⟨0x001B, ⟨[1, 3, 6, 1, 4, 1, 1466, 101, 119]⟩⟩,
   ⟨0x001C, ⟨[2, 16, 840, 1, 113730, 3, 2]⟩⟩,
   ⟨0x001D, ⟨[1, 3, 6, 1, 4, 1, 250, 1]⟩⟩,
   ⟨0x001E, ⟨[1, 2, 840, 113549, 1, 9]⟩⟩,
   ⟨0x001F, ⟨[0, 9, 2342, 19200300, 100, 4]⟩⟩,
   ⟨0x0020, ⟨[1, 2, 840, 113556, 1, 6, 23]⟩⟩,
   ⟨0x0021, ⟨[1, 2, 840, 113556, 1, 6, 18, 1]⟩⟩,
   ⟨0x0022, ⟨[1, 2, 840, 113556, 1, 6, 18, 2]⟩⟩,
   ⟨0x0023, ⟨[1, 2, 840, 113556, 1, 6, 13, 3]⟩⟩,
   ⟨0x0024, ⟨[1, 2, 840, 113556, 1, 6, 13, 4]⟩⟩,
   ⟨0x0025, ⟨[1, 3, 6, 1, 1, 1, 1]⟩⟩,
   ⟨0x0026, ⟨[1, 3, 6, 1, 1, 1, 2]⟩⟩]

/-- The number of reserved codes, and the lowest code that is not reserved. -/
def count : Nat := entries.length

def contains (code : Code) : Bool :=
  code.toNat < count

/-- The codes are dense and in order, so the code is the place of its entry. -/
def oid? (code : Code) : Option Oid :=
  (entries[code.toNat]?).map Entry.oid

def code? (oid : Oid) : Option Code :=
  (entries.find? fun entry => entry.oid = oid).map Entry.code

end CompactOid.Reserved
