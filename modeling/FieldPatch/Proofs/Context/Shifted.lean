import FieldPatch.Proofs.Context.Layered
import Mathlib.Data.List.Forall2

namespace FieldPatch

namespace Location

variable {l m list : Location} {index : Nat}

/-- Moves that agree on the element a location leads into take it to the same place. -/
theorem moveIndex_congr {first second : Nat → Nat}
    (h : ∀ i, l.startsWith (list.child (.index i)) → first i = second i) :
    list.moveIndex first l = list.moveIndex second l := by
  rcases moveIndex_cases list first l with ⟨i, rest, rfl, he⟩ | ⟨hn, he⟩
  · rw [he, moveIndex_index, h i (startsWith_child_iff.mpr ⟨rest, rfl⟩)]
  · rcases moveIndex_cases list second l with ⟨i, rest, hl, -⟩ | ⟨-, he'⟩
    · exact absurd hl (hn i rest)
    · rw [he, he']

/-- Where a location is after an insertion when indices start over behind the greatest one. -/
def raiseWrapping (list : Location) (index : Nat) (location : Location) : Location :=
  list.moveIndex (fun i => if index ≤ i then (i + 1) % indexLimit else i) location

/-- Every index in the location is one that a machine word can hold. -/
def InRange (location : Location) : Prop := ∀ i, Step.index i ∈ location → i < indexLimit

theorem InRange.lt (h : l.InRange) {i : Nat} (hi : l.startsWith (list.child (.index i))) :
    i < indexLimit := by
  obtain ⟨rest, rfl⟩ := startsWith_child_iff.mp hi
  exact h i (by simp)

theorem raiseWrapping_eq (h : ∀ i, l.startsWith (list.child (.index i)) → i + 1 < indexLimit) :
    list.raiseWrapping index l = list.raise index l := by
  refine moveIndex_congr fun i hi => ?_
  rw [Nat.mod_eq_of_lt (h i hi)]

end Location

namespace ContextStack

variable {stack front : ContextStack} {list slot : Location} {index : Nat}

/-- Every index in the stack's contexts is one that a machine word can hold. -/
def InRange (stack : ContextStack) : Prop := ∀ context ∈ stack.entries, context.location.InRange

/-- No context is at or in the list's element of the greatest index. -/
def BelowLast (list : Location) (stack : ContextStack) : Prop :=
  ∀ context ∈ stack.entries,
    ¬ context.location.startsWith (list.child (.index (indexLimit - 1)))

theorem afterInsertWrapping_eq (h : ∀ context ∈ stack.entries, ∀ i,
      context.location.startsWith (list.child (.index i)) → i + 1 < indexLimit) :
    stack.afterInsertWrapping list index = stack.afterInsert list index := by
  have hm : ∀ context ∈ stack.entries,
      Context.moved (list.raiseWrapping index) context = Context.moved (list.raise index) context :=
    fun context hc => by simp only [Context.moved, Location.raiseWrapping_eq (h context hc)]
  exact congrArg ContextStack.mk (List.map_congr_left hm)

theorem InRange.afterInsertWrapping_eq (hr : stack.InRange) (hb : stack.BelowLast list) :
    stack.afterInsertWrapping list index = stack.afterInsert list index := by
  refine ContextStack.afterInsertWrapping_eq fun context hc i hi => ?_
  have hlt := (hr context hc).lt hi
  have hne : i ≠ indexLimit - 1 := fun he => hb context hc (he ▸ hi)
  omega

/-- Contexts that lead to slots have no index to start over unless the list has filled all. -/
theorem Anchored.afterInsertWrapping_eq {root : Value RecordType} {items : List (Value RecordType)}
    (h : stack.Anchored root) (hl : root.at? list = some (.list items))
    (hs : items.length < indexLimit) :
    stack.afterInsertWrapping list index = stack.afterInsert list index := by
  refine ContextStack.afterInsertWrapping_eq fun context hc i hi => ?_
  obtain ⟨value, hv⟩ := h context hc
  obtain ⟨rest, he⟩ := Location.startsWith_child_iff.mp hi
  have ha := hv.reaches.at?
  rw [he, Value.at?_append, hl] at ha
  obtain ⟨item, hitem, -⟩ := Value.at?_cons_eq_some ha
  obtain ⟨hlt, -⟩ := List.getElem?_eq_some_iff.mp hitem
  omega

end ContextStack

end FieldPatch
