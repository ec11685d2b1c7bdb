import FieldPatch.Fault

namespace FieldPatch.Kind

def checked {α : Type} (kind : Kind RecordType) (raw : String) (make : α → Value RecordType) :
    Except Misread α → Except Fault (Value RecordType)
  | .ok a => .ok (make a)
  | .error reason => .error (.invalidValue kind raw reason)

def read (kind : Kind RecordType) (raw : String) : Except Fault (Value RecordType) :=
  match kind with
  | string => .ok (.string raw)
  | bool => .ok (.bool (Literal.bool raw))
  | int => kind.checked raw .int ((Integer.read? raw).elim (.error .notInteger) .ok)
  | float => kind.checked raw .float ((Binary32.read? raw).elim (.error .notNumber) .ok)
  | vector dim => kind.checked raw (.vector dim) (Literal.vector dim raw)
  | color => kind.checked raw .color (Literal.color raw)
  | enum type =>
    match type.member? raw with
    | some member => .ok (.enum member)
    | none => .error (.unknownMember type.name raw)
  | stringSet | list _ | map _ _ | record _ | interface _ => .error (.noLiteral kind)

/-- The value that a terminal kind is reset to: null for texts, opaque black for colours, the zero
of the kind otherwise. -/
def resetValue (kind : Kind RecordType) : Except Fault (Value RecordType) :=
  match kind with
  | string => .ok .null
  | color => .ok (.color .black)
  | enum type =>
    match type.default? with
    | some member => .ok (.enum member)
    | none => .error (.noInstance kind)
  | bool | int | float | vector _ => .ok kind.zero
  | stringSet | list _ | map _ _ | record _ | interface _ => .error (.noLiteral kind)

def decode (kind : Kind RecordType) (op : Operation) (raw : String) :
    Except Fault (Value RecordType) :=
  if op = .reset then kind.resetValue else kind.read raw

end FieldPatch.Kind
