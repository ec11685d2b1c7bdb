import FieldPatch.Schema.RecordType

namespace FieldPatch

namespace Tag

def mark : Char := '!'

/-- A raw value is a tag when it starts with the mark. -/
def isTag (text : String) : Bool := text.toList.head? == some mark

def normalize (tag : String) : String :=
  if isTag tag then tag else String.singleton mark ++ tag

end Tag

/-- Tags with their record types, in order of registration. -/
abbrev TagTable : Type := Table String RecordType

namespace TagTable

/-- The table with a tag registered for `type`, and the type it was registered for before. -/
def register (tags : TagTable) (tag : String) (type : RecordType) :
    Option RecordType × TagTable :=
  (Table.get? (Tag.normalize tag) tags, Table.put (Tag.normalize tag) type tags)

def lookup? (tags : TagTable) (tag : String) : Option RecordType := Table.get? tag tags

def describe (tags : TagTable) : String :=
  String.join (tags.map fun (tag, type) => tag ++ ": " ++ type.name ++ "\n")

end TagTable

end FieldPatch
