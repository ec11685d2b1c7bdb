import FieldPatch.Path.Segment

namespace FieldPatch

/-- One edit of one config: the config by type and file key, the path of the slot, the raw value,
and the mod that asks for it. -/
structure Request where
  typeName : String := ""
  fileKey : String := ""
  path : String := ""
  value : String := ""
  modIndex : Nat := 0
  modId : String := ""
deriving DecidableEq, Repr

inductive Channel where
  | fault
  | info
  | context
deriving DecidableEq, Repr

/-- An edit that takes effect edits; one that is refused or has no effect attempts to. -/
inductive Verb where
  | edits
  | attempts
deriving DecidableEq, Repr

def Verb.text : Verb → String
  | edits => "edits"
  | attempts => "attempts to edit"

/-- A segment of a path and its place among all of them; positions count from one. -/
structure StepInfo where
  segment : String
  position : Nat
  count : Nat
deriving DecidableEq, Repr

/-- What an edit reports about itself, with the request that it belongs to. -/
structure Diagnostic where
  channel : Channel
  verb : Verb
  request : Request
  path : String
  step : Option StepInfo := none
  detail : String
deriving DecidableEq, Repr

def StepInfo.text (step : StepInfo) : String :=
  let segment := step.segment
  let position := step.position
  let count := step.count
  s!" | segment {segment} (step {position} of {count})"

def Diagnostic.text (d : Diagnostic) : String :=
  let index := d.request.modIndex
  let mod := d.request.modId
  let verb := d.verb.text
  let key := d.request.fileKey
  let type := d.request.typeName
  let path := d.path
  let detail := d.detail
  s!"Mod {index} ({mod}) {verb} config {key} of type {type}, field {path} | {detail}" ++
    (match d.step with
      | some step => step.text
      | none => "")

end FieldPatch
