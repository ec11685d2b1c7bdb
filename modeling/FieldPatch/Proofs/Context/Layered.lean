import FieldPatch.Proofs.Context.Anchored
import Mathlib.Data.List.TakeWhile

namespace FieldPatch

namespace Location

variable {l m : Location}

theorem isPrefix_iff_startsWith : m <+: l ↔ l.startsWith m := List.isPrefixOf_iff_prefix.symm

theorem startsWith_self (l : Location) : l.startsWith l :=
  isPrefix_iff_startsWith.mp (List.prefix_refl l)

theorem startsWith_trans {a b c : Location} (h : a.startsWith b) (h' : b.startsWith c) :
    a.startsWith c := by
  rw [← isPrefix_iff_startsWith] at h h' ⊢
  exact h'.trans h

theorem startsWith_antisymm (h : l.startsWith m) (h' : m.startsWith l) : l = m := by
  rw [← isPrefix_iff_startsWith] at h h'
  exact h'.eq_of_length (Nat.le_antisymm h'.length_le h.length_le)

theorem isInside_iff_startsWith : l.isInside m ↔ l.startsWith m ∧ l ≠ m := by
  rw [isInside_iff, startsWith_iff]
  constructor
  · rintro ⟨step, rest, rfl⟩
    exact ⟨⟨step :: rest, rfl⟩, by simp⟩
  · rintro ⟨⟨rest, rfl⟩, hn⟩
    cases rest with
    | nil => simp at hn
    | cons step rest => exact ⟨step, rest, rfl⟩

/-- A location that is not at or around another one lies apart from it or inside it. -/
theorem apart_or_inside {base : Location} (h : ¬ base.startsWith l) :
    (¬ l.isInside base ∧ ¬ l.startsWith base) ∨ ∃ step rest, l = base ++ step :: rest := by
  by_cases hs : l.startsWith base
  · refine .inr ((isInside_iff _ _).mp (isInside_iff_startsWith.mpr ⟨hs, ?_⟩))
    rintro rfl
    exact h hs
  · exact .inl ⟨fun hi => hs (isInside_iff_startsWith.mp hi).1, hs⟩

theorem startsWith_append (base : Location) :
    (base ++ l).startsWith (base ++ m) ↔ l.startsWith m := by
  simp only [← isPrefix_iff_startsWith, List.prefix_append_right_inj]

theorem startsWith_child (base : Location) (step : Step) : (base.child step).startsWith base :=
  (startsWith_iff _ _).mpr ⟨[step], rfl⟩

theorem child_ne_nil (base : Location) (step : Step) : base.child step ≠ [] := by simp [child]

theorem isInside_child (base : Location) (step : Step) : (base.child step).isInside base :=
  (isInside_iff _ _).mpr ⟨step, [], rfl⟩

theorem not_startsWith_child (base : Location) (step : Step) :
    ¬ base.startsWith (base.child step) := by
  intro hs
  obtain ⟨hi, hne⟩ := isInside_iff_startsWith.mp (isInside_child base step)
  exact hne (startsWith_antisymm hi hs)

/-- Where a location is after an element was inserted into the list at `index`. -/
def raise (list : Location) (index : Nat) (location : Location) : Location :=
  list.moveIndex (fun i => if index ≤ i then i + 1 else i) location

/-- Where a location is after the list's element at `index` was removed. -/
def lower (list : Location) (index : Nat) (location : Location) : Location :=
  list.moveIndex (fun i => if index < i then i - 1 else i) location

theorem moveIndex_cases (list : Location) (move : Nat → Nat) (l : Location) :
    (∃ i rest, l = list ++ .index i :: rest ∧
      list.moveIndex move l = list ++ .index (move i) :: rest) ∨
    ((∀ i rest, l ≠ list ++ .index i :: rest) ∧ list.moveIndex move l = l) := by
  by_cases h : ∃ i rest, l = list ++ .index i :: rest
  · obtain ⟨i, rest, rfl⟩ := h
    exact .inl ⟨i, rest, rfl, moveIndex_index list move i rest⟩
  · simp only [not_exists] at h
    refine .inr ⟨h, ?_⟩
    rw [moveIndex]
    split
    · rename_i i rest he
      exact absurd (after?_eq_some_iff.mp he) (h i rest)
    · rfl

theorem moveIndex_ne_nil {list : Location} {move : Nat → Nat} (h : l ≠ []) :
    list.moveIndex move l ≠ [] := by
  rcases moveIndex_cases list move l with ⟨i, rest, -, he⟩ | ⟨-, he⟩
  · simp [he]
  · rwa [he]

theorem startsWith_child_iff {base : Location} {step : Step} :
    l.startsWith (base.child step) ↔ ∃ rest, l = base ++ step :: rest := by
  simp only [startsWith_iff, child, List.append_assoc, List.singleton_append]

/-- Moving the elements of a list without bringing two of them together reflects which location
contains which. -/
theorem startsWith_of_moveIndex {list : Location} {move : Nat → Nat}
    (hm : ∀ i j, l.startsWith (list.child (.index i)) → m.startsWith (list.child (.index j)) →
      move i = move j → i = j)
    (h : (list.moveIndex move l).startsWith (list.moveIndex move m)) : l.startsWith m := by
  rcases moveIndex_cases list move l with ⟨i, rest, hl, hl'⟩ | ⟨hl, hl'⟩ <;>
    rcases moveIndex_cases list move m with ⟨j, rest', hj, hj'⟩ | ⟨hj, hj'⟩ <;>
    rw [hl', hj'] at h
  · have he := hm i j (startsWith_child_iff.mpr ⟨rest, hl⟩) (startsWith_child_iff.mpr ⟨rest', hj⟩)
    rw [startsWith_append, ← isPrefix_iff_startsWith, List.cons_prefix_cons, Step.index.injEq] at h
    obtain rfl := he h.1.symm
    rw [hl, hj, startsWith_append, ← isPrefix_iff_startsWith]
    exact List.cons_prefix_cons.mpr ⟨rfl, h.2⟩
  · -- `m` did not move, so it ends before the index step and both lie behind it.
    rw [← isPrefix_iff_startsWith] at h ⊢
    rcases List.prefix_or_prefix_of_prefix h (List.prefix_append list _) with hp | ⟨t, rfl⟩
    · exact hl ▸ hp.trans (List.prefix_append _ _)
    · cases t with
      | nil => simp [hl]
      | cons step t =>
        obtain ⟨rfl, -⟩ := List.cons_prefix_cons.mp ((List.prefix_append_right_inj list).mp h)
        exact absurd rfl (hj _ t)
  · obtain ⟨tail, rfl⟩ := (startsWith_iff _ _).mp h
    exact absurd (by simp) (hl (move j) (rest' ++ tail))
  · exact h

theorem startsWith_of_raise {list : Location} {index : Nat}
    (h : (list.raise index l).startsWith (list.raise index m)) : l.startsWith m :=
  startsWith_of_moveIndex (fun i j _ _ he => by grind) h

/-- Nothing is left at the index where an element was inserted. -/
theorem not_startsWith_raise (list : Location) (index : Nat) (l : Location) :
    ¬ (list.raise index l).startsWith (list.child (.index index)) := by
  rw [startsWith_child_iff]
  rintro ⟨rest, h⟩
  rcases moveIndex_cases list (fun i => if index ≤ i then i + 1 else i) l with
    ⟨i, rest', -, he⟩ | ⟨hn, he⟩
  · have hi := (List.append_cancel_left (he.symm.trans h))
    simp only [List.cons.injEq, Step.index.injEq] at hi
    grind
  · exact hn index rest (he.symm.trans h)

theorem startsWith_of_lower {list : Location} {index : Nat}
    (hl : ¬ l.startsWith (list.child (.index index)))
    (hm : ¬ m.startsWith (list.child (.index index)))
    (h : (list.lower index l).startsWith (list.lower index m)) : l.startsWith m := by
  refine startsWith_of_moveIndex (fun i j hi hj he => ?_) h
  have hi' : i ≠ index := fun hc => hl (hc ▸ hi)
  have hj' : j ≠ index := fun hc => hm (hc ▸ hj)
  grind

end Location

/-- The context of a slot that is now where `move` says. -/
def Context.moved (move : Location → Location) (context : Context) : Context :=
  { context with location := move context.location }

namespace ContextStack

variable {stack : ContextStack}

def relocate (move : Location → Location) (stack : ContextStack) : ContextStack :=
  ⟨stack.entries.map (Context.moved move)⟩

theorem afterRemove_eq (list : Location) (index : Nat) (stack : ContextStack) :
    (stack.afterRemove list index).2 =
      (stack.discardWithin (list.child (.index index)) true).2.relocate (list.lower index) := rfl

theorem relocate_of_still {move : Location → Location} (h : ∀ l, move l = l)
    (stack : ContextStack) : stack.relocate move = stack := by
  have hm : Context.moved move = id := funext fun c => by rw [Context.moved, h, id]
  simp [relocate, hm]

@[simp] theorem relocate_id (stack : ContextStack) : stack.relocate id = stack :=
  relocate_of_still (fun _ => rfl) stack

theorem keepUntil_eq_self {lost : Location → Bool}
    (h : ∀ context ∈ stack.entries, lost context.location = false) :
    stack.keepUntil lost = stack := by
  have ht : stack.entries.takeWhile (fun context => !lost context.location) = stack.entries :=
    List.takeWhile_eq_self_iff.mpr (by simpa using h)
  simp only [keepUntil, ht]

/-- The stack after a slot was set as a context: on the chain so far, or on its own. A slot that is
on top is not set again. -/
def remember (chained : Bool) (context : Context) (stack : ContextStack) : ContextStack :=
  let base := if chained then stack else .empty
  if base.top?.map Context.location = some context.location then base else base.push context

/-- No context is at or around one below it, all are slots below the root that hold slots. -/
structure Layered (stack : ContextStack) : Prop where
  below : ∀ context ∈ stack.entries, context.location ≠ []
  structural : ∀ context ∈ stack.entries, context.kind.isStructural = true
  order : stack.entries.Pairwise fun lower upper => ¬ lower.location.startsWith upper.location

theorem layered_empty : empty.Layered := by
  constructor <;> simp [empty]

theorem Layered.of_prefix {front : ContextStack} (h : stack.Layered)
    (hp : front.entries <+: stack.entries) : front.Layered :=
  ⟨fun c hc => h.below c (hp.subset hc), fun c hc => h.structural c (hp.subset hc),
    h.order.sublist hp.sublist⟩

theorem Layered.relocate {move : Location → Location} (h : stack.Layered)
    (hn : ∀ l ≠ [], move l ≠ [])
    (ho : ∀ lower ∈ stack.entries, ∀ upper ∈ stack.entries,
      (move lower.location).startsWith (move upper.location) →
        lower.location.startsWith upper.location) : (stack.relocate move).Layered := by
  refine ⟨fun c hc => ?_, fun c hc => ?_, ?_⟩
  · obtain ⟨c, hm, rfl⟩ := List.mem_map.mp hc
    exact hn _ (h.below c hm)
  · obtain ⟨c, hm, rfl⟩ := List.mem_map.mp hc
    exact h.structural c hm
  · refine List.pairwise_map.mpr (h.order.imp_of_mem fun hl hu hs hc => ?_)
    exact hs (ho _ hl _ hu hc)

theorem Layered.push {context : Context} (h : stack.Layered) (hb : context.location ≠ [])
    (hk : context.kind.isStructural = true)
    (hn : ∀ lower ∈ stack.entries, ¬ lower.location.startsWith context.location) :
    (stack.push context).Layered := by
  refine ⟨fun c hc => ?_, fun c hc => ?_, ?_⟩
  · rcases List.mem_append.mp hc with hc | hc
    · exact h.below c hc
    · rwa [List.mem_singleton.mp hc]
  · rcases List.mem_append.mp hc with hc | hc
    · exact h.structural c hc
    · rwa [List.mem_singleton.mp hc]
  · refine List.pairwise_append.mpr ⟨h.order, List.pairwise_singleton _ _, ?_⟩
    intro lower hl upper hu
    rw [List.mem_singleton.mp hu]
    exact hn lower hl

theorem Layered.nodup (h : stack.Layered) : (stack.entries.map Context.location).Nodup := by
  refine List.pairwise_map.mpr (h.order.imp fun hs he => hs ?_)
  rw [he]
  exact Location.startsWith_self _

end ContextStack

end FieldPatch
