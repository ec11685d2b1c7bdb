import FieldPatch.Collection.Table
import FieldPatch.Value.Basic

namespace FieldPatch

def sameNumbers : List Binary32 → List Binary32 → Bool
  | [], [] => true
  | x :: xs, y :: ys => x.same y && sameNumbers xs ys
  | _, _ => false

namespace Value

variable {δ : Type} [BEq δ]

mutual

/-- Equality of contents: sets and maps agree in whatever order, lists and records place by place. -/
def same : Value δ → Value δ → Bool
  | .null, .null => true
  | .string s, .string t => s == t
  | .bool a, .bool b => a == b
  | .int m, .int n => m == n
  | .float x, .float y => x.same y
  | .vector d v, .vector e w => d == e && sameNumbers v.toList w.toList
  | .color c, .color d => sameNumbers c.channels d.channels
  | .enum m, .enum n => m == n
  | .stringSet s, .stringSet t => s.same t
  | .list xs, .list ys => sameItems xs ys
  | .map xs, .map ys => xs.length == ys.length && sameEntries xs ys
  | .record t xs, .record u ys => t == u && sameFields xs ys
  | _, _ => false

def sameItems : List (Value δ) → List (Value δ) → Bool
  | [], [] => true
  | x :: xs, y :: ys => x.same y && sameItems xs ys
  | _, _ => false

def sameEntries : List (Key × Value δ) → List (Key × Value δ) → Bool
  | [], _ => true
  | (key, x) :: xs, ys =>
    (match Table.get? key ys with
      | some y => x.same y
      | none => false) && sameEntries xs ys

def sameFields : List (String × Value δ) → List (String × Value δ) → Bool
  | [], [] => true
  | (_, x) :: xs, (_, y) :: ys => x.same y && sameFields xs ys
  | _, _ => false

end

end Value

end FieldPatch
