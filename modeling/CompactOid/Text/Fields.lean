namespace CompactOid.Fields

/-- The fields of a text that starts with the character and goes on with the fields. -/
def extend (separator char : Char) (fields : List (List Char)) : List (List Char) :=
  if char = separator then [] :: fields
  else match fields with
    | [] => [[char]]
    | field :: later => (char :: field) :: later

/-- The fields between separators, at least one. -/
def split (separator : Char) (text : List Char) : List (List Char) :=
  text.foldr (extend separator) [[]]

def join (separator : Char) (fields : List (List Char)) : List Char :=
  [separator].intercalate fields

end CompactOid.Fields
