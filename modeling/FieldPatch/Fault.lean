import FieldPatch.Path.FieldPath
import FieldPatch.Path.Operation
import FieldPatch.Value.Literal
import FieldPatch.Value.Location

namespace FieldPatch

inductive FaultClass where
  | structural
  | value
  | policy
deriving DecidableEq, Repr

/-- Why an edit is refused, with the facts that the message names. -/
inductive Fault where
  | path (fault : PathFault)
  | rootNotRecord (sort : String)
  | nullTarget (segment : String)
  | invalidIndex (segment : String)
  | misplacedGlob (segment : String)
  | indexOutOfRange (segment : String) (size : Nat)
  | elementOutOfRange (op : Operation) (segment : String) (size : Nat)
  | unsupportedKeyKind (kind : Kind RecordType)
  | invalidKey (segment : String) (kind : Kind RecordType)
  | missingKey (key : Key)
  | unknownField (name : String) (type : String)
  | notAContainer (segment : String) (kind : Kind RecordType)
  | contextDepth (depth available : Nat)
  | staleContext (location : Location)
  | invalidValue (kind : Kind RecordType) (raw : String) (reason : Misread)
  | unknownMember (enum : String) (raw : String)
  | nullOnValueKind (kind : Kind RecordType)
  | unsupportedOperation (op : Operation) (kind : Kind RecordType)
  | setExists
  | setMissing
  | noInstance (kind : Kind RecordType)
  | unknownTag (tag : String)
  | incompatibleTag (tag : String) (type : String) (kind : Kind RecordType)
  | noLiteral (kind : Kind RecordType)
  | contextOnTerminal (kind : Kind RecordType)
  | removedConfig (key : String) (type : String)

namespace Fault

def faultClass : Fault → FaultClass
  | path _ | rootNotRecord _ | nullTarget _ | invalidIndex _ | misplacedGlob _
  | indexOutOfRange _ _ | elementOutOfRange _ _ _ | unsupportedKeyKind _ | invalidKey _ _
  | missingKey _ | unknownField _ _ | notAContainer _ _ | contextDepth _ _ | staleContext _ =>
    .structural
  | invalidValue _ _ _ | unknownMember _ _ => .value
  | nullOnValueKind _ | unsupportedOperation _ _ | setExists | setMissing | noInstance _
  | unknownTag _ | incompatibleTag _ _ _ | noLiteral _ | contextOnTerminal _
  | removedConfig _ _ => .policy

def message : Fault → String
  | path fault => fault.message
  | rootNotRecord sort => s!"root object is {sort}, field paths start at a record"
  | nullTarget segment => s!"can't proceed past {segment}, current target reference is null"
  | invalidIndex segment => s!"index {segment} can't be parsed or is negative"
  | misplacedGlob segment => s!"index glob {segment} is only valid as the last segment"
  | indexOutOfRange segment size =>
    s!"can't proceed past {segment}, index is beyond end of list (size={size})"
  | elementOutOfRange op segment size =>
    op.text ++ s!" on index {segment} is out of bounds for list size {size}"
  | unsupportedKeyKind kind =>
    "only keys of types [string, int] are supported, map key type is " ++ kind.text
  | invalidKey segment kind => s!"key {segment} can't be converted to map key type " ++ kind.text
  | missingKey key => "key " ++ key.text ++ " doesn't exist in target map"
  | unknownField name type => s!"field {name} could not be found on type {type}"
  | notAContainer segment kind =>
    s!"can't proceed past {segment}, " ++ kind.text ++ " has no fields or elements"
  | contextDepth depth available =>
    s!"context {depth} requested but only {available} contexts are set"
  | staleContext location => "context " ++ location.text ++ " no longer resolves to a value"
  | invalidValue kind raw reason =>
    kind.text ++ " field can't be overwritten - can't parse raw value " ++ Text.quoted raw ++ ": " ++
      reason.message
  | unknownMember enum raw =>
    enum ++ " field can't be overwritten - " ++ Text.quoted raw ++ " is not a member"
  | nullOnValueKind kind => "value type " ++ kind.text ++ " cannot be set to null"
  | unsupportedOperation op kind => op.text ++ " is not supported on " ++ kind.text
  | setExists => "string set exists - cannot replace it with a default value"
  | setMissing => "string set is null - use !d to create it first"
  | noInstance kind =>
    "default value for " ++ kind.text ++ " is null - likely missing a type tag"
  | unknownTag tag => s!"there is no type associated with tag {tag}"
  | incompatibleTag tag type kind =>
    s!"tag {tag} type {type} is not compatible with field type " ++ kind.text
  | noLiteral kind =>
    kind.text ++
      " has no string parsing implementation - try !d to fill it with a default instance"
  | contextOnTerminal kind =>
    "context can only be set on lists, maps and records, target is " ++ kind.text
  | removedConfig key type => s!"config {key} of type {type} can't be removed"

end Fault

end FieldPatch
