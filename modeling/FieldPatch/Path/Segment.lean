import FieldPatch.Text.Split

namespace FieldPatch.Segment

def separator : Char := '.'

/-- One marker for each context counted from the bottom of the stack. -/
def marker : Char := '^'

/-- Stands for the place after the last element of a list. -/
def glob : String := "*"

/-- A segment is a marker run when it holds markers only, and at least one. -/
def isMarker (segment : String) : Bool :=
  !segment.isEmpty && segment.toList.all (· == marker)

def markerRun (n : Nat) : String := String.ofList (List.replicate n marker)

def markerDepth? (segment : String) : Option Nat :=
  if isMarker segment then some segment.length else none

def isGlob (segment : String) : Bool := segment == glob

/-- The segments of a path text, empty ones included. -/
def split (path : String) : List String := Text.split separator path

def join (segments : List String) : String := Text.join separator segments

end FieldPatch.Segment
