import FieldPatch.Collection.StringSet
import FieldPatch.Number.Shortest
import FieldPatch.Schema.Kind

namespace FieldPatch

/-- A map is keyed by texts or by numbers. -/
inductive Key where
  | str (text : String)
  | int (number : Int32)
deriving DecidableEq

namespace Key

def text : Key → String
  | str s => s
  | int n => Integer.text n

/-- Text keys come before number keys; each sort is ordered in itself. -/
def le : Key → Key → Bool
  | str s, str t => s ≤ t
  | str _, int _ => true
  | int _, str _ => false
  | int m, int n => m ≤ n

end Key

/-- A colour; its last channel is the opacity. -/
structure Color where
  red : Binary32
  green : Binary32
  blue : Binary32
  alpha : Binary32
deriving DecidableEq

namespace Color

def channels (c : Color) : List Binary32 := [c.red, c.green, c.blue, c.alpha]

def transparent : Color := ⟨.zero, .zero, .zero, .zero⟩

def black : Color := ⟨.zero, .zero, .zero, .one⟩

end Color

/-- The trees that edits change; `δ` stands for the record types. -/
inductive Value (δ : Type) where
  | null
  | string (text : String)
  | bool (flag : Bool)
  | int (number : Int32)
  | float (number : Binary32)
  | vector (dim : Dim) (components : Vector Binary32 dim.size)
  | color (color : Color)
  | enum (member : String)
  | stringSet (members : StringSet)
  | list (items : List (Value δ))
  | map (entries : List (Key × Value δ))
  | record (type : δ) (fields : List (String × Value δ))

namespace Value

variable {δ : Type}

instance : Inhabited (Value δ) := ⟨null⟩

def isNull : Value δ → Bool
  | null => true
  | _ => false

end Value

/-- The value of a slot that nothing was written to yet: a value kind starts with its zero, an enum
with its first member, every other kind with null. -/
def Kind.zero {δ : Type} : Kind δ → Value δ
  | bool => .bool false
  | int => .int 0
  | float => .float .zero
  | vector dim => .vector dim (Vector.replicate dim.size .zero)
  | color => .color .transparent
  | enum type => (type.default?.map Value.enum).getD .null
  | _ => .null

end FieldPatch
