import FieldPatch.Context.Stack
import FieldPatch.Proofs.Path.Plain
import FieldPatch.Proofs.Slot.Change

namespace FieldPatch

namespace Location

theorem after?_eq_some_iff {base location : Location} {rest : List Step} :
    after? base location = some rest ↔ location = base ++ rest := by
  induction base generalizing location with
  | nil => simp [after?]
  | cons b base ih =>
    cases location with
    | nil => simp [after?]
    | cons s location =>
      by_cases hs : b = s
      · simp [after?, hs, ih]
      · simp [after?, hs, Ne.symm hs]

theorem moveIndex_index (list : Location) (move : Nat → Nat) (i : Nat) (rest : List Step) :
    list.moveIndex move (list ++ .index i :: rest) = list ++ .index (move i) :: rest := by
  rw [moveIndex, after?_eq_some_iff.mpr rfl]

theorem moveIndex_of_not_inside {list location : Location} (move : Nat → Nat)
    (h : ¬ location.isInside list) : list.moveIndex move location = location := by
  rw [moveIndex]
  split
  · rename_i i rest he
    exact absurd ((isInside_iff _ _).mpr ⟨_, _, after?_eq_some_iff.mp he⟩) h
  · rfl

end Location

namespace Value

theorem Reaches.ne_nil {root : Value RecordType} {l : Location} {slot : Slot}
    (h : root.Reaches l slot) (hk : ∀ type, slot.kind ≠ .record type) : l ≠ [] := by
  rintro rfl
  obtain ⟨type, fields, rfl, h⟩ := h.record
  cases h
  exact hk type rfl

theorem Reaches.append {root : Value RecordType} {l m : Location} {slot last : Slot}
    (h : root.Reaches l slot) (hm : slot.Reaches m last) : root.Reaches (l ++ m) last := by
  obtain ⟨type, fields, rfl, h⟩ := h.record
  exact Slot.Reaches.append h hm

/-- A place inside a slot is still there after the slot got a value with the same child in it,
perhaps one step beside. -/
theorem Reaches.carry {root changed new : Value RecordType} {base : Location} {slot last : Slot}
    {step step' : Step} {rest : List Step} (hb : root.Reaches base slot) (hn : base ≠ [])
    (hr : root.replace? base new = some changed) (h : root.Reaches (base ++ step :: rest) last)
    (hs : ∀ next, slot.Enters step next → Slot.Enters ⟨slot.kind, new⟩ step' next) :
    changed.Reaches (base ++ step' :: rest) last := by
  cases hb.rest h with
  | down first later => exact (hb.replace hn hr).append (.down (hs _ first) later)

theorem Reaches.not_inside {root : Value RecordType} {l m : Location} {slot last : Slot}
    (h : root.Reaches l slot) (hc : ∀ step, slot.value.child? step = none)
    (hm : root.Reaches m last) : ¬ m.isInside l := by
  intro hi
  obtain ⟨step, rest, rfl⟩ := (Location.isInside_iff _ _).mp hi
  cases h.rest hm with
  | down first _ =>
    have he := (hc step).symm.trans first.child?
    contradiction

/-- A slot below the root that a path can name. -/
structure Names (root : Value RecordType) (l : Location) (slot : Slot) : Prop where
  reaches : root.Reaches l slot
  below : l ≠ []
  plain : l.Plain

theorem Names.replace {root changed value : Value RecordType} {l : Location} {slot : Slot}
    (h : root.Names l slot) (hr : root.replace? l value = some changed) :
    changed.Names l ⟨slot.kind, value⟩ :=
  ⟨h.reaches.replace h.below hr, h.below, h.plain⟩

theorem Names.exists_replace {root : Value RecordType} {l : Location} {slot : Slot}
    (h : root.Names l slot) (value : Value RecordType) :
    ∃ changed, root.replace? l value = some changed := h.reaches.exists_replace value

end Value

def Context.Anchored (root : Value RecordType) (context : Context) : Prop :=
  ∃ value, root.Names context.location ⟨context.kind, value⟩

/-- All contexts of the stack lead to slots of their kinds. -/
def ContextStack.Anchored (root : Value RecordType) (stack : ContextStack) : Prop :=
  ∀ context ∈ stack.entries, context.Anchored root

namespace Context

variable {root changed : Value RecordType} {context : Context}

theorem Anchored.of_not_inside {l : Location} {value : Value RecordType} (hl : l ≠ [])
    (hr : root.replace? l value = some changed) (h : context.Anchored root)
    (hn : ¬ context.location.isInside l) : context.Anchored changed := by
  obtain ⟨old, hc⟩ := h
  obtain ⟨v, hv⟩ := hc.reaches.replace_of_not_inside hl hr hn
  exact ⟨v, hv, hc.below, hc.plain⟩

/-- The elements of a list were moved, and the context with the one it leads into. -/
theorem Anchored.of_elements {list : Location} {kind : Kind RecordType}
    {items items' : List (Value RecordType)} {move : Nat → Nat}
    (hb : root.Reaches list ⟨.list kind, .list items⟩)
    (hr : root.replace? list (.list items') = some changed) (h : context.Anchored root)
    (hm : ∀ i rest v, context.location = list ++ .index i :: rest → items[i]? = some v →
      items'[move i]? = some v) :
    Anchored changed { context with location := list.moveIndex move context.location } := by
  have hl : list ≠ [] := hb.ne_nil (by simp)
  by_cases hi : context.location.isInside list
  · obtain ⟨value, hc⟩ := h
    obtain ⟨step, rest, he⟩ := (Location.isInside_iff _ _).mp hi
    have hreach := hc.reaches
    have hplain := hc.plain
    rw [he] at hreach hplain
    cases hb.rest hreach with
    | down first later =>
      cases first with
      | @element _ _ i v held =>
        refine ⟨value, ?_⟩
        rw [he, Location.moveIndex_index]
        refine ⟨hb.carry hl hr hreach ?_, by simp, ?_⟩
        · intro next hn
          cases hn with
          | element held => exact .element (hm i rest _ he held)
        · obtain ⟨hp, hq⟩ := Location.plain_append.mp hplain
          exact Location.plain_append.mpr ⟨hp, Location.plain_cons.mpr
            ⟨Step.plain_index _, (Location.plain_cons.mp hq).2⟩⟩
  · rw [Location.moveIndex_of_not_inside move hi]
    exact h.of_not_inside hl hr hi

/-- The map that the context leads into, if any, got other entries but not another one there. -/
theorem Anchored.of_entries {map : Location} {keyKind kind : Kind RecordType}
    {entries entries' : List (Key × Value RecordType)}
    (hb : root.Reaches map ⟨.map keyKind kind, .map entries⟩)
    (hr : root.replace? map (.map entries') = some changed) (h : context.Anchored root)
    (hm : ∀ key rest v, context.location = map ++ .key key :: rest →
      Table.get? key entries = some v → Table.get? key entries' = some v) :
    context.Anchored changed := by
  have hl : map ≠ [] := hb.ne_nil (by simp)
  by_cases hi : context.location.isInside map
  · obtain ⟨value, hc⟩ := h
    obtain ⟨step, rest, he⟩ := (Location.isInside_iff _ _).mp hi
    have hreach := hc.reaches
    rw [he] at hreach
    refine ⟨value, ?_, hc.below, hc.plain⟩
    rw [he]
    refine hb.carry hl hr hreach ?_
    intro next hn
    cases hn with
    | entry sort held => exact .entry sort (hm _ rest _ he held)
  · exact h.of_not_inside hl hr hi

end Context

namespace ContextStack

variable {root changed : Value RecordType} {stack : ContextStack}

theorem anchored_empty : empty.Anchored root := by simp [Anchored, empty]

theorem mem_keepUntil {lost : Location → Bool} {context : Context}
    (h : context ∈ (stack.keepUntil lost).entries) :
    context ∈ stack.entries ∧ lost context.location = false := by
  have hm := (stack.isPrefix_keepUntil lost).subset h
  have hl := List.all_eq_true.mp List.all_takeWhile context h
  exact ⟨hm, by simpa using hl⟩

theorem mem_of_get? {depth : Nat} {context : Context} (h : stack.get? depth = some context) :
    context ∈ stack.entries := by
  rw [get?] at h
  split at h
  · contradiction
  · exact List.mem_of_getElem? h

theorem Anchored.of_prefix {front : ContextStack} (h : stack.Anchored root)
    (hp : front.entries <+: stack.entries) : front.Anchored root :=
  fun context hc => h context (hp.subset hc)

theorem Anchored.push {context : Context} (h : stack.Anchored root) (hc : context.Anchored root) :
    (stack.push context).Anchored root := by
  intro c hm
  rcases List.mem_append.mp hm with hm | hm
  · exact h c hm
  · rwa [List.mem_singleton.mp hm]

/-- A value was written, and the contexts inside the old one were lost. -/
theorem Anchored.discardWithin {l : Location} {value : Value RecordType} (h : stack.Anchored root)
    (hl : l ≠ []) (hr : root.replace? l value = some changed) :
    (stack.discardWithin l false).2.Anchored changed := by
  rw [discardWithin_snd]
  intro c hc
  obtain ⟨hm, hn⟩ := mem_keepUntil hc
  exact (h c hm).of_not_inside hl hr (by simpa using hn)

theorem Anchored.of_leaf {l : Location} {slot : Slot} {value : Value RecordType}
    (h : stack.Anchored root) (hs : root.Names l slot)
    (hc : ∀ step, slot.value.child? step = none) (hr : root.replace? l value = some changed) :
    stack.Anchored changed := by
  intro c hm
  obtain ⟨v, hv⟩ := h c hm
  exact (h c hm).of_not_inside hs.below hr (hs.reaches.not_inside hc hv.reaches)

variable {list map : Location} {kind keyKind : Kind RecordType} {items : List (Value RecordType)}
  {entries : List (Key × Value RecordType)} {entry : Value RecordType}

theorem Anchored.afterInsert {index : Nat} (h : stack.Anchored root)
    (hb : root.Reaches list ⟨.list kind, .list items⟩)
    (hr : root.replace? list (.list (items.insertIdx index entry)) = some changed) :
    (stack.afterInsert list index).Anchored changed := by
  intro c hc
  obtain ⟨c, hm, rfl⟩ := List.mem_map.mp hc
  refine (h c hm).of_elements hb hr fun i rest v _ hv => ?_
  obtain ⟨hlt, -⟩ := List.getElem?_eq_some_iff.mp hv
  rw [List.getElem?_insertIdx]
  grind

theorem Anchored.afterRemove {index : Nat} (h : stack.Anchored root)
    (hb : root.Reaches list ⟨.list kind, .list items⟩)
    (hr : root.replace? list (.list (items.eraseIdx index)) = some changed) :
    (stack.afterRemove list index).2.Anchored changed := by
  rw [afterRemove_snd, discardWithin_snd]
  intro c hc
  obtain ⟨c, hm, rfl⟩ := List.mem_map.mp hc
  obtain ⟨hm, hn⟩ := mem_keepUntil hm
  refine (h c hm).of_elements hb hr fun i rest v he hv => ?_
  have hne : i ≠ index := by
    rintro rfl
    have hs : c.location.startsWith (list.child (.index i)) := by
      rw [Location.startsWith_iff]
      exact ⟨rest, by simp [he, Location.child]⟩
    simp [hs] at hn
  rw [List.getElem?_eraseIdx]
  grind

theorem Anchored.of_makeEntry {key : Key} (h : stack.Anchored root)
    (hb : root.Reaches map ⟨.map keyKind kind, .map entries⟩)
    (hr : root.replace? map (.map (entries ++ [(key, entry)])) = some changed) :
    stack.Anchored changed :=
  fun c hm => (h c hm).of_entries hb hr fun _ _ _ _ hv => Table.get?_append_of_eq_some hv

theorem Anchored.of_dropEntry {key : Key} (h : stack.Anchored root)
    (hb : root.Reaches map ⟨.map keyKind kind, .map entries⟩)
    (hr : root.replace? map (.map (Table.erase key entries)) = some changed) :
    (stack.discardWithin (map.child (.key key)) true).2.Anchored changed := by
  rw [discardWithin_snd]
  intro c hc
  obtain ⟨hm, hn⟩ := mem_keepUntil hc
  refine (h c hm).of_entries hb hr fun k rest v he hv => ?_
  have hne : k ≠ key := by
    rintro rfl
    have hs : c.location.startsWith (map.child (.key k)) := by
      rw [Location.startsWith_iff]
      exact ⟨rest, by simp [he, Location.child]⟩
    simp [hs] at hn
  rwa [Table.get?_erase_of_ne hne]

end ContextStack

end FieldPatch
