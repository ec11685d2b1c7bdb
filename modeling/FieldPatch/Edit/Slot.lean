import FieldPatch.Edit.Editing
import FieldPatch.Edit.Outcome
import FieldPatch.Schema.TagTable
import FieldPatch.Value.Decode
import FieldPatch.Value.Text

namespace FieldPatch

/-- What an operation does to the slot that it addresses. -/
inductive SlotEdit where
  /-- Another value comes into the slot, which becomes a context if it `opens`. -/
  | assign (value : Value RecordType) (opens : Bool) (detail : String)
  | amend (value : Value RecordType) (detail : String)
  | keep (detail : String)
  | mark

/-- What an edit asks of a slot: the operation, the value in front of it, and the last segment. -/
structure SlotRequest where
  op : Operation
  value : String
  segment : String

/-- The default instance of a structural kind: a record of the tagged type where the value is a
tag, the kind's own instance otherwise. -/
def Kind.defaultInstance (tags : TagTable) (value : String) (kind : Kind RecordType) :
    Except Fault (Value RecordType) :=
  if Tag.isTag value then
    match tags.lookup? value with
    | none => .error (.unknownTag value)
    | some type =>
      if kind.accepts type then .ok type.fresh
      else .error (.incompatibleTag value type.name kind)
  else
    match kind.fresh? with
    | some fresh => .ok fresh
    | none => .error (.noInstance kind)

def Kind.instanceName (kind : Kind RecordType) : Value RecordType → String
  | .record type _ => type.name
  | _ => kind.text

namespace SlotEdit

/-- Edits of a set: members come and go one by one, and a reset makes a set where there is none. -/
def ofSet (r : SlotRequest) (current : Value RecordType) : Except Fault SlotEdit :=
  let segment := r.segment
  let member := r.value
  match r.op, current with
  | .reset, .null => .ok (.amend (.stringSet .empty) s!"assigned new string set to {segment}")
  | .reset, _ => .error .setExists
  | .insert, .stringSet set =>
    if set.contains member then
      .ok (.keep s!"value {member} already exists in target set, ignoring insert")
    else .ok (.amend (.stringSet (set.insert member)) s!"value {member} added to target set")
  | .remove, .stringSet set =>
    if set.contains member then
      .ok (.amend (.stringSet (set.erase member)) s!"value {member} removed from target set")
    else .ok (.keep s!"value {member} not found in target set, ignoring remove")
  | .insert, _ | .remove, _ => .error .setMissing
  | op, _ => .error (.unsupportedOperation op .stringSet)

def ofTerminal (r : SlotRequest) (kind : Kind RecordType) : Except Fault SlotEdit :=
  match kind.decode r.op r.value with
  | .error fault => .error fault
  | .ok value =>
    .ok (.assign value false (kind.text ++ " field modified with value " ++ value.text))

/-- Edits of a slot that holds slots: it can only be filled with a default instance. -/
def ofStructural (tags : TagTable) (r : SlotRequest) (kind : Kind RecordType) :
    Except Fault SlotEdit :=
  if r.op = .reset then
    match kind.defaultInstance tags r.value with
    | .error fault => .error fault
    | .ok value =>
      .ok (.assign value true
        ("assigned new default " ++ kind.instanceName value ++ " to " ++ r.segment))
  else .error (.noLiteral kind)

def decide (tags : TagTable) (r : SlotRequest) (kind : Kind RecordType)
    (current : Value RecordType) : Except Fault SlotEdit :=
  match r.op, kind with
  | .setNull, kind =>
    if kind.isValueKind then .error (.nullOnValueKind kind)
    else .ok (.assign .null false ("assigned null to " ++ r.segment))
  | .setContext, kind =>
    if kind.isTerminal then .error (.contextOnTerminal kind) else .ok .mark
  | _, .stringSet => ofSet r current
  | .insert, kind | .remove, kind => .error (.unsupportedOperation r.op kind)
  | _, kind => if kind.isTerminal then ofTerminal r kind else ofStructural tags r kind

end SlotEdit

namespace Editing

def perform (location : Location) (kind : Kind RecordType) (edit : SlotEdit) (e : Editing) :
    Outcome × Editing :=
  match edit with
  | .assign value opens detail =>
    let assigned := (e.assign location value).info detail
    (.applied, if opens then assigned.setContext location kind else assigned)
  | .amend value detail => (.applied, (e.amend location value).info detail)
  | .keep detail => (.noOp, e.noEffect detail)
  | .mark => (.contextSet, e.setContext location kind)

end Editing

end FieldPatch
