import FieldPatch.Schema.RecordType

namespace FieldPatch.Value

def tupleText (numbers : List Binary32) : String :=
  "(" ++ String.intercalate ", " (numbers.map Binary32.text) ++ ")"

def text : Value RecordType → String
  | null => "null"
  | string s => s
  | bool b => if b then "true" else "false"
  | int n => Integer.text n
  | float x => x.text
  | vector _ components => tupleText components.toList
  | color c => "RGBA" ++ tupleText c.channels
  | enum member => member
  | stringSet members => members.text
  | list items => s!"list[{items.length}]"
  | map entries => s!"map[{entries.length}]"
  | record type _ => type.name

/-- The sort of a value, by which a fault names it. -/
def sort {δ : Type} : Value δ → String
  | null => "null"
  | string _ => "string"
  | bool _ => "bool"
  | int _ => "int"
  | float _ => "float"
  | vector .two _ => "Vector2"
  | vector .three _ => "Vector3"
  | vector .four _ => "Vector4"
  | color _ => "Color"
  | enum _ => "enum"
  | stringSet _ => "set"
  | list _ => "list"
  | map _ => "map"
  | record _ _ => "record"

end FieldPatch.Value
