import FieldPatch.Proofs.Slot.Reach

namespace FieldPatch

namespace Slot

theorem Enters.setChild {slot next : Slot} {step : Step} (h : slot.Enters step next)
    (child : Value RecordType) :
    Enters ⟨slot.kind, slot.value.setChild step child⟩ step ⟨next.kind, child⟩ := by
  have hc := Value.child?_setChild child h.child?
  cases h with
  | field known _ => exact .field known hc
  | element _ => exact .element hc
  | entry sort _ => exact .entry sort hc

theorem Enters.setChild_of_ne {slot next : Slot} {step other : Step} (h : slot.Enters other next)
    (hn : other ≠ step) (child : Value RecordType) :
    Enters ⟨slot.kind, slot.value.setChild step child⟩ other next := by
  have hc := (Value.child?_setChild_of_ne slot.value child hn).trans h.child?
  cases h with
  | field known _ => cases step <;> exact .field known hc
  | element _ => cases step <;> exact .element hc
  | entry sort _ => cases step <;> exact .entry sort hc

theorem Reaches.replace {slot last : Slot} {l : Location} {value changed : Value RecordType}
    (h : slot.Reaches l last) (hr : slot.value.replace? l value = some changed) :
    Reaches ⟨slot.kind, changed⟩ l ⟨last.kind, value⟩ := by
  induction h generalizing changed with
  | here =>
    cases hr
    exact .here
  | down first _ ih =>
    simp only [Value.replace?, first.child?, Option.map_eq_some_iff] at hr
    obtain ⟨inner, hi, rfl⟩ := hr
    exact .down (first.setChild inner) (ih hi)

/-- A place that does not lie inside the written slot stays, with its declared kind. -/
theorem Reaches.replace_of_not_inside {slot last : Slot} {l m : Location}
    {value changed : Value RecordType} (h : slot.Reaches m last)
    (hr : slot.value.replace? l value = some changed) (hn : ¬ m.isInside l) :
    ∃ v, Reaches ⟨slot.kind, changed⟩ m ⟨last.kind, v⟩ := by
  induction h generalizing l changed with
  | here => exact ⟨changed, .here⟩
  | @down slot next last step rest first later ih =>
    cases l with
    | nil => simp [Location.isInside, Location.startsWith] at hn
    | cons other l =>
      obtain ⟨child, inner, hc, hi, rfl⟩ := Value.replace?_cons_eq_some hr
      by_cases he : step = other
      · subst he
        cases first.child?.symm.trans hc
        have hn' : ¬ Location.isInside rest l := by
          simpa [Location.isInside, Location.startsWith] using hn
        obtain ⟨v, hv⟩ := ih hi hn'
        exact ⟨v, .down (first.setChild inner) hv⟩
      · exact ⟨last.value, .down (first.setChild_of_ne he inner) later⟩

end Slot

namespace Value

/-- Below the root, writing keeps the type of the root. -/
theorem replace?_record {type : RecordType} {fields : List (String × Value RecordType)}
    {l : Location} {value changed : Value RecordType} (hl : l ≠ [])
    (h : (Value.record type fields).replace? l value = some changed) :
    ∃ fields', changed = .record type fields' := by
  cases l with
  | nil => contradiction
  | cons step rest =>
    obtain ⟨child, inner, -, -, rfl⟩ := replace?_cons_eq_some h
    cases step with
    | field name => exact ⟨_, rfl⟩
    | index i => exact ⟨fields, rfl⟩
    | key k => exact ⟨fields, rfl⟩

theorem Reaches.replace {root changed value : Value RecordType} {l : Location} {slot : Slot}
    (h : root.Reaches l slot) (hl : l ≠ []) (hr : root.replace? l value = some changed) :
    changed.Reaches l ⟨slot.kind, value⟩ := by
  obtain ⟨type, fields, rfl, h⟩ := h.record
  obtain ⟨fields', rfl⟩ := replace?_record hl hr
  exact Slot.Reaches.replace h hr

theorem Reaches.replace_of_not_inside {root changed value : Value RecordType} {l m : Location}
    {slot : Slot} (h : root.Reaches m slot) (hl : l ≠ [])
    (hr : root.replace? l value = some changed) (hn : ¬ m.isInside l) :
    ∃ v, changed.Reaches m ⟨slot.kind, v⟩ := by
  obtain ⟨type, fields, rfl, h⟩ := h.record
  obtain ⟨fields', rfl⟩ := replace?_record hl hr
  exact Slot.Reaches.replace_of_not_inside h hr hn

theorem Reaches.exists_replace {root : Value RecordType} {l : Location} {slot : Slot}
    (h : root.Reaches l slot) (value : Value RecordType) :
    ∃ changed, root.replace? l value = some changed := by
  have hs := isSome_replace? root value l
  rw [h.at?] at hs
  exact Option.isSome_iff_exists.mp hs

end Value

end FieldPatch
