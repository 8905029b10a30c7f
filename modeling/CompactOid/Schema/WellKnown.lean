import CompactOid.Reference

namespace CompactOid.Schema.WellKnown

/-- The attribute `2.5.4.0`. -/
def objectClass : Reference := ⟨0x00000000⟩

/-- The attribute `1.2.840.113556.1.4.1`, which every object is named by. -/
def name : Reference := ⟨0x00090001⟩

/-- The attribute `1.2.840.113556.1.2.22` of a class. -/
def governsId : Reference := ⟨0x00020016⟩

/-- The attribute `1.2.840.113556.1.2.30` of an attribute. -/
def attributeId : Reference := ⟨0x0002001E⟩

/-- The attribute `1.2.840.113556.1.2.32` of an attribute. -/
def attributeSyntax : Reference := ⟨0x00020020⟩

/-- The attribute `1.2.840.113556.1.2.460`. -/
def ldapDisplayName : Reference := ⟨0x000201CC⟩

/-- The attribute `1.2.840.113556.1.4.538` of the schema container, which holds the map. -/
def prefixMap : Reference := ⟨0x0009021A⟩

/-- The class `1.2.840.113556.1.3.9`, that of the schema container. -/
def dmd : Reference := ⟨0x00030009⟩

/-- The class `1.2.840.113556.1.3.13`. -/
def classSchema : Reference := ⟨0x0003000D⟩

/-- The class `1.2.840.113556.1.3.14`. -/
def attributeSchema : Reference := ⟨0x0003000E⟩

/-- The attributes and then the classes, each with its usual upper-case name. -/
def all : List (String × Reference) :=
  [("OBJECT_CLASS", objectClass),
   ("NAME", name),
   ("GOVERNS_ID", governsId),
   ("ATTRIBUTE_ID", attributeId),
   ("ATTRIBUTE_SYNTAX", attributeSyntax),
   ("LDAP_DISPLAY_NAME", ldapDisplayName),
   ("PREFIX_MAP", prefixMap),
   ("DMD", dmd),
   ("CLASS_SCHEMA", classSchema),
   ("ATTRIBUTE_SCHEMA", attributeSchema)]

end CompactOid.Schema.WellKnown
