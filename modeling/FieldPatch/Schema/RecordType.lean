import FieldPatch.Collection.Table
import FieldPatch.Value.Basic

namespace FieldPatch

/-- What a record type says about one of its fields. -/
structure Field (δ : Type) where
  kind : Kind δ
  initial : Option (Value δ)

/-- A type of records: its name, the names that it counts as, and its fields. -/
inductive RecordType where
  | mk (name : String) (supertypes : List String) (fields : List (String × Field RecordType))

namespace RecordType

def name : RecordType → String
  | mk name _ _ => name

/-- The names of the other types and interfaces that the type counts as. -/
def supertypes : RecordType → List String
  | mk _ supertypes _ => supertypes

def fields : RecordType → List (String × Field RecordType)
  | mk _ _ fields => fields

/-- A type with no field, that counts as itself only. -/
def named (name : String) : RecordType := mk name [] []

/-- Record types are told apart by name. -/
instance : BEq RecordType := ⟨fun t u => t.name == u.name⟩

def isA (type : RecordType) (name : String) : Bool :=
  type.name == name || type.supertypes.contains name

def field? (type : RecordType) (name : String) : Option (Field RecordType) :=
  Table.get? name type.fields

/-- The type counts as one name more; its own name and a repeated one are left out. -/
def addSupertype (type : RecordType) (name : String) : RecordType :=
  if type.isA name then type else mk type.name (type.supertypes ++ [name]) type.fields

/-- A field is added at the end, or takes the place of the one with its name. -/
def declare (type : RecordType) (name : String) (field : Field RecordType) : RecordType :=
  mk type.name type.supertypes (Table.put name field type.fields)

def implement (type : RecordType) (interface : String) : RecordType := type.addSupertype interface

/-- The type takes over all fields of `base` and counts as all that `base` counts as. -/
def extend (type base : RecordType) : RecordType :=
  let withFields := base.fields.foldl (fun t (name, field) => t.declare name field) type
  (base.name :: base.supertypes).foldl addSupertype withFields

/-- A record of the type, each field at its initial value, or else at the zero of its kind. -/
def fresh (type : RecordType) : Value RecordType :=
  .record type (type.fields.map fun (name, field) => (name, field.initial.getD field.kind.zero))

end RecordType

namespace Kind

/-- A record of type `type` can stand in a slot of the kind. -/
def accepts (type : RecordType) : Kind RecordType → Bool
  | record declared => type.isA declared.name
  | interface name => type.isA name
  | _ => false

/-- The default instance of a kind; interfaces have none, nor do enums without members. -/
def fresh? : Kind RecordType → Option (Value RecordType)
  | string => some (.string "")
  | enum type => type.default?.map .enum
  | stringSet => some (.stringSet .empty)
  | list _ => some (.list [])
  | map _ _ => some (.map [])
  | record type => some type.fresh
  | interface _ => none
  | kind => some kind.zero

def text : Kind RecordType → String
  | string => "string"
  | bool => "bool"
  | int => "int"
  | float => "float"
  | vector .two => "Vector2"
  | vector .three => "Vector3"
  | vector .four => "Vector4"
  | color => "Color"
  | enum type => type.name
  | stringSet => "set<string>"
  | list element => "list<" ++ element.text ++ ">"
  | map key value => "map<" ++ key.text ++ ", " ++ value.text ++ ">"
  | record type => type.name
  | interface name => name

end Kind

end FieldPatch
