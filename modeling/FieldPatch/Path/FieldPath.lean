import FieldPatch.Path.Segment

namespace FieldPatch

/-- Where a path starts (`0` is the root, `n` the `n`-th context) and the segments it follows. -/
structure FieldPath where
  contextDepth : Nat
  segments : List String
deriving DecidableEq, Repr

/-- Why a text is no field path; positions count from one. -/
inductive PathFault where
  | empty
  | emptySegment (position : Nat)
  | misplacedMarker (segment : String) (position : Nat)
  | tooLong (count : Nat)
deriving DecidableEq, Repr

namespace PathFault

/-- A path has at most this many segments, the marker run counted as one. -/
def maxSegments : Nat := 256

def message : PathFault → String
  | empty => "field path is empty"
  | emptySegment position => s!"segment at step {position} is empty"
  | misplacedMarker segment position =>
    s!"context marker {segment} is only allowed as the first segment (step {position})"
  | tooLong count => s!"field path has {count} segments, at most {maxSegments} are allowed"

/-- The first faulty segment, where the next one stands at `position`. A marker run is at fault
everywhere but in first place. -/
def firstIn? (position : Nat) : List String → Option PathFault
  | [] => none
  | segment :: rest =>
    if segment.isEmpty then some (.emptySegment position)
    else if 1 < position && Segment.isMarker segment then some (.misplacedMarker segment position)
    else firstIn? (position + 1) rest

/-- The fault of a list of segments, its size judged before its members. -/
def ofSegments? (segments : List String) : Option PathFault :=
  if segments.isEmpty then some .empty
  else if maxSegments < segments.length then some (.tooLong segments.length)
  else firstIn? 1 segments

end PathFault

namespace FieldPath

def usesContext (path : FieldPath) : Bool := 0 < path.contextDepth

def written (path : FieldPath) : List String :=
  if path.usesContext then Segment.markerRun path.contextDepth :: path.segments else path.segments

def text (path : FieldPath) : String := Segment.join path.written

/-- The path that some segments write: a marker run in first place selects a context. -/
def ofSegments : List String → FieldPath
  | [] => ⟨0, []⟩
  | first :: rest =>
    match Segment.markerDepth? first with
    | some depth => ⟨depth, rest⟩
    | none => ⟨0, first :: rest⟩

def parse (text : String) : Except PathFault FieldPath :=
  if text.isEmpty then .error .empty
  else
    let segments := Segment.split text
    match PathFault.ofSegments? segments with
    | some fault => .error fault
    | none => .ok (ofSegments segments)

end FieldPath

end FieldPatch
