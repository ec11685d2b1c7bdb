import FieldPatch.Fault

namespace FieldPatch

/-- How an edit ended. -/
inductive Outcome where
  | ignored
  | skipped
  | applied
  | incomplete
  | removed
  | noOp
  | contextSet
  | faulted (fault : Fault)

namespace Outcome

def fault? : Outcome → Option Fault
  | faulted fault => some fault
  | _ => none

def isFault (outcome : Outcome) : Bool := outcome.fault?.isSome

def isSkipped : Outcome → Bool
  | skipped => true
  | _ => false

/-- The edit reports that it changed the config. -/
def mutated : Outcome → Bool
  | applied | incomplete | removed => true
  | _ => false

end Outcome

end FieldPatch
