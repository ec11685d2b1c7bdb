import FieldPatch.Fault

namespace FieldPatch

/-- A value reached by a path, and the kind its slot is declared with. -/
structure Cursor where
  location : Location
  kind : Kind RecordType

/-- A slot of a container that a segment can address, with what the container holds. It may be an
element past the end of a list or a key that a map does not hold. -/
inductive Place where
  | field (name : String) (kind : Kind RecordType)
  /-- No index stands for the place after the last element. -/
  | element (items : List (Value RecordType)) (index : Option Nat) (kind : Kind RecordType)
  | entry (entries : List (Key × Value RecordType)) (key : Key) (kind : Kind RecordType)

def Kind.key (keyKind : Kind RecordType) (segment : String) : Except Fault Key :=
  match keyKind with
  | string => .ok (.str segment)
  | int =>
    match Integer.read? segment with
    | some n => .ok (.int n)
    | none => .error (.invalidKey segment keyKind)
  | _ => .error (.unsupportedKeyKind keyKind)

namespace Place

/-- The place that a segment addresses in the value under the cursor. Lists and maps are followed
by their declared kind, records by the type they really have; a record holds the fields of its
type. -/
def ofSegment (kind : Kind RecordType) (target : Value RecordType) (segment : String) :
    Except Fault Place :=
  match kind, target with
  | _, .null => .error (.nullTarget segment)
  | .list elementKind, .list items =>
    if Segment.isGlob segment then .ok (.element items none elementKind)
    else match Integer.index? segment with
      | some i => .ok (.element items (some i) elementKind)
      | none => .error (.invalidIndex segment)
  | .map keyKind valueKind, .map entries =>
    match keyKind.key segment with
    | .error fault => .error fault
    | .ok key => .ok (.entry entries key valueKind)
  | _, .record type fields =>
    match type.field? segment, Table.get? segment fields with
    | some declared, some _ => .ok (.field segment declared.kind)
    | _, _ => .error (.unknownField segment type.name)
  | kind, _ => .error (.notAContainer segment kind)

/-- The place of an existing slot: the last step to it, in the container it is a step into. -/
def ofStep? (container : Value RecordType) (step : Step) (kind : Kind RecordType) :
    Option Place :=
  match container, step with
  | .record _ _, .field name => some (.field name kind)
  | .list items, .index i => some (.element items (some i) kind)
  | .map entries, .key key => some (.entry entries key kind)
  | _, _ => none

/-- The step to a place that a path goes on from: it must exist. -/
def step (segment : String) : Place → Except Fault Step
  | field name _ => .ok (.field name)
  | element _ none _ => .error (.misplacedGlob segment)
  | element items (some i) _ =>
    if i < items.length then .ok (.index i) else .error (.indexOutOfRange segment items.length)
  | entry entries key _ =>
    if Table.contains key entries then .ok (.key key) else .error (.missingKey key)

def kind : Place → Kind RecordType
  | field _ kind | element _ _ kind | entry _ _ kind => kind

end Place

/-- What a path leads to: a place, and where its container is. -/
structure Destination where
  container : Location
  place : Place

namespace Cursor

def place (root : Value RecordType) (cursor : Cursor) (segment : String) : Except Fault Place :=
  match root.at? cursor.location with
  | none => .error (.staleContext cursor.location)
  | some target => Place.ofSegment cursor.kind target segment

def advance (root : Value RecordType) (cursor : Cursor) (segment : String) :
    Except Fault Cursor :=
  match cursor.place root segment with
  | .error fault => .error fault
  | .ok place =>
    match place.step segment with
    | .error fault => .error fault
    | .ok step => .ok ⟨cursor.location.child step, place.kind⟩

end Cursor

end FieldPatch
