namespace FieldPatch

/-- A named choice between members; the first one is the default. -/
structure EnumType where
  name : String
  members : List String
deriving DecidableEq, Repr

namespace EnumType

def default? (type : EnumType) : Option String := type.members.head?

def member? (type : EnumType) (name : String) : Option String := type.members.find? (· == name)

end EnumType

/-- The number of components of a vector. -/
inductive Dim where
  | two
  | three
  | four
deriving DecidableEq, Repr

def Dim.size : Dim → Nat
  | two => 2
  | three => 3
  | four => 4

/-- What a slot is declared to hold; `δ` stands for the record types that kinds refer to. -/
inductive Kind (δ : Type) where
  | string
  | bool
  | int
  | float
  | vector (dim : Dim)
  | color
  | enum (type : EnumType)
  | stringSet
  | list (element : Kind δ)
  | map (key value : Kind δ)
  | record (type : δ)
  | interface (name : String)

namespace Kind

variable {δ : Type}

/-- A value kind always holds a value; the others may hold null. -/
def isValueKind : Kind δ → Bool
  | bool | int | float | vector _ | color | enum _ => true
  | _ => false

/-- A structural kind holds slots of its own. -/
def isStructural : Kind δ → Bool
  | list _ | map _ _ | record _ | interface _ => true
  | _ => false

def isTerminal (kind : Kind δ) : Bool := !kind.isStructural

def isKeyKind : Kind δ → Bool
  | string | int => true
  | _ => false

end Kind

end FieldPatch
