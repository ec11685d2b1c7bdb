import FieldPatch.Schema.RecordType
import FieldPatch.Text.Quoted
import FieldPatch.Text.Split

namespace FieldPatch

/-- Why a text is no colour; positions count from one. -/
inductive ColorFault where
  | channelCount (found : Nat)
  | badChannel (position : Nat) (text : String)
deriving DecidableEq, Repr

def ColorFault.message : ColorFault → String
  | channelCount found => s!"expected 3 or 4 color channels, found {found}"
  | badChannel position text => s!"channel {position} (" ++ Text.quoted text ++ ") is not a number"

/-- Why a text is no literal of its kind; positions count from one. -/
inductive Misread where
  | notInteger
  | notNumber
  | missingParentheses
  | componentCount (expected found : Nat)
  | badComponent (position : Nat)
  | color (fault : ColorFault)
deriving DecidableEq, Repr

def Misread.message : Misread → String
  | notInteger => "not an integer"
  | notNumber => "not a number"
  | missingParentheses => "missing parentheses"
  | componentCount expected found => s!"expected {expected} components, found {found}"
  | badComponent position => s!"component {position} is not a number"
  | color fault => fault.message

namespace Literal

def inner? (raw : String) : Option String :=
  match raw.toList with
  | '(' :: rest => if rest.getLast? = some ')' then some (String.ofList rest.dropLast) else none
  | _ => none

/-- The numbers of some texts, one for each, or the position and text of the first that is none;
the first text stands at `position`. -/
def numbers (position : Nat) :
    (parts : List String) →
      Except (Nat × String) { numbers : List Binary32 // numbers.length = parts.length }
  | [] => .ok ⟨[], rfl⟩
  | part :: parts =>
    match Binary32.read? part with
    | none => .error (position, part)
    | some x =>
      match numbers (position + 1) parts with
      | .error bad => .error bad
      | .ok ⟨xs, h⟩ => .ok ⟨x :: xs, by simp [h]⟩

def vector (dim : Dim) (raw : String) : Except Misread (Vector Binary32 dim.size) :=
  match inner? raw with
  | none => .error .missingParentheses
  | some inner =>
    let parts := Text.split ',' inner
    if size : parts.length = dim.size then
      match numbers 1 parts with
      | .error (position, _) => .error (.badComponent position)
      | .ok ⟨xs, h⟩ => .ok ⟨xs.toArray, by simp [h, size]⟩
    else .error (.componentCount dim.size parts.length)

/-- A colour without its parentheses: three or four channels, the opacity being one if it is not
given. -/
def colorChannels (inner : String) : Except ColorFault Color :=
  let parts := Text.split ',' inner
  if parts.length = 3 ∨ parts.length = 4 then
    match numbers 1 parts with
    | .error (position, text) => .error (.badChannel position (Text.trim text))
    | .ok ⟨[r, g, b], _⟩ => .ok ⟨r, g, b, .one⟩
    | .ok ⟨[r, g, b, a], _⟩ => .ok ⟨r, g, b, a⟩
    | .ok ⟨xs, _⟩ => .error (.channelCount xs.length)
  else .error (.channelCount parts.length)

def color (raw : String) : Except Misread Color :=
  match inner? raw with
  | none => .error .missingParentheses
  | some inner =>
    match colorChannels inner with
    | .error fault => .error (.color fault)
    | .ok color => .ok color

/-- Only the word `true`, in any case, is true; every other text is false. -/
def bool (raw : String) : Bool := raw.toList.map Char.toLower == "true".toList

end Literal

end FieldPatch
