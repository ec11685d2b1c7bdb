import FieldPatch.Schema.RecordType
import FieldPatch.Value.Location

namespace FieldPatch

/-- A remembered slot: where it is, its declared kind, and the segment that led to it. -/
structure Context where
  location : Location
  kind : Kind RecordType
  segment : String

/-- The number of indices that a machine word tells apart. -/
def indexLimit : Nat := UInt64.size

namespace Location

/-- The steps after `base`, when the location lies at or inside it. -/
def after? : (base location : Location) → Option (List Step)
  | [], location => some location
  | _, [] => none
  | b :: base, s :: location => if b = s then after? base location else none

/-- The location with its index step into the list at `list` moved by `move`; a location that does
not lead into the list stays. -/
def moveIndex (list : Location) (move : Nat → Nat) (location : Location) : Location :=
  match after? list location with
  | some (.index i :: rest) => list ++ .index (move i) :: rest
  | _ => location

end Location

/-- Contexts with the newest on top. Entries are stored bottom first, so the context of depth `n` is
the `n`-th entry, and every loss of contexts leaves a front part of the stack. -/
structure ContextStack where
  entries : List Context := []

namespace ContextStack

def empty : ContextStack := ⟨[]⟩

def size (stack : ContextStack) : Nat := stack.entries.length

def isEmpty (stack : ContextStack) : Bool := stack.entries.isEmpty

def top? (stack : ContextStack) : Option Context := stack.entries.getLast?

def push (stack : ContextStack) (context : Context) : ContextStack :=
  ⟨stack.entries ++ [context]⟩

/-- The context of a depth; depths count from one at the bottom. -/
def get? (stack : ContextStack) (depth : Nat) : Option Context :=
  if depth = 0 then none else stack.entries[depth - 1]?

def select? (stack : ContextStack) (depth : Nat) : Option (Context × ContextStack) :=
  (stack.get? depth).map fun context => (context, ⟨stack.entries.take depth⟩)

/-- The stack up to the first context on which `lost` holds. -/
def keepUntil (lost : Location → Bool) (stack : ContextStack) : ContextStack :=
  ⟨stack.entries.takeWhile fun context => !lost context.location⟩

/-- The stack up to the first context on which `lost` holds, behind the number of contexts that are
discarded. -/
def discard (lost : Location → Bool) (stack : ContextStack) : Nat × ContextStack :=
  match stack.entries.findIdx? fun context => lost context.location with
  | some position => (stack.size - position, ⟨stack.entries.take position⟩)
  | none => (0, stack)

/-- Discards the contexts from the first one inside `slot` on, the slot itself counted or not. -/
def discardWithin (slot : Location) (inclusive : Bool) (stack : ContextStack) :
    Nat × ContextStack :=
  stack.discard fun location =>
    if inclusive then location.startsWith slot else location.isInside slot

def moveIndices (list : Location) (move : Nat → Nat) (stack : ContextStack) : ContextStack :=
  ⟨stack.entries.map fun context =>
    { context with location := list.moveIndex move context.location }⟩

/-- The stack after an element was inserted at `index`: what stood there or behind moved up. -/
def afterInsert (list : Location) (index : Nat) (stack : ContextStack) : ContextStack :=
  stack.moveIndices list fun i => if index ≤ i then i + 1 else i

/-- The stack after an insertion, on contexts that need not lead into a list: behind the greatest
index the indices start over. -/
def afterInsertWrapping (list : Location) (index : Nat) (stack : ContextStack) : ContextStack :=
  stack.moveIndices list fun i => if index ≤ i then (i + 1) % indexLimit else i

/-- The stack after the element at `index` was removed, behind the number of contexts that are
discarded: those from the first one in the element on. What stood behind the element moved down. -/
def afterRemove (list : Location) (index : Nat) (stack : ContextStack) : Nat × ContextStack :=
  let (lost, kept) := stack.discardWithin (list.child (.index index)) true
  (lost, kept.moveIndices list fun i => if index < i then i - 1 else i)

theorem top?_push (stack : ContextStack) (context : Context) :
    (stack.push context).top? = some context := by simp [push, top?]

/-- A stack is discarded down to `keepUntil`, and the number is that of the contexts it loses. -/
theorem discard_eq (lost : Location → Bool) (stack : ContextStack) :
    stack.discard lost = (stack.size - (stack.keepUntil lost).size, stack.keepUntil lost) := by
  have hk : stack.entries.takeWhile (fun context => !lost context.location) =
      stack.entries.take (stack.entries.findIdx fun context => lost context.location) := by
    rw [List.takeWhile_eq_take_findIdx_not]
    simp
  unfold discard
  split
  · rename_i position hp
    obtain ⟨hl, rfl⟩ := List.findIdx?_eq_some_iff_findIdx_eq.mp hp
    simp [keepUntil, hk, size, Nat.min_eq_left (Nat.le_of_lt hl)]
  · rename_i hn
    have hs : stack.keepUntil lost = stack := by
      rw [keepUntil, hk, List.findIdx_eq_length.mpr (List.findIdx?_eq_none_iff.mp hn),
        List.take_length]
    rw [hs, Nat.sub_self]

theorem discardWithin_snd (slot : Location) (inclusive : Bool) (stack : ContextStack) :
    (stack.discardWithin slot inclusive).2 = stack.keepUntil fun location =>
      if inclusive then location.startsWith slot else location.isInside slot := by
  rw [discardWithin, discard_eq]

theorem afterRemove_snd (list : Location) (index : Nat) (stack : ContextStack) :
    (stack.afterRemove list index).2 =
      (stack.discardWithin (list.child (.index index)) true).2.moveIndices list
        fun i => if index < i then i - 1 else i := rfl

/-- Losing contexts leaves a front part of the stack. -/
theorem isPrefix_keepUntil (lost : Location → Bool) (stack : ContextStack) :
    (stack.keepUntil lost).entries <+: stack.entries := List.takeWhile_prefix _

end ContextStack

end FieldPatch
