import FieldPatch.Edit.Place

namespace FieldPatch

structure Slot where
  kind : Kind RecordType
  value : Value RecordType

/-- A path can name the key in a map with keys of the kind. -/
def Key.isOf : Key → Kind RecordType → Bool
  | .str _, .string => true
  | .int _, .int => true
  | _, _ => false

namespace Slot

/-- One step down: lists and maps go by their declared kind, a record by the type it has. -/
inductive Enters : Slot → Step → Slot → Prop
  | field {kind : Kind RecordType} {type : RecordType} {fields : List (String × Value RecordType)}
      {name : String} {declared : Field RecordType} {value : Value RecordType}
      (known : type.field? name = some declared) (held : Table.get? name fields = some value) :
      Enters ⟨kind, .record type fields⟩ (.field name) ⟨declared.kind, value⟩
  | element {kind : Kind RecordType} {items : List (Value RecordType)} {i : Nat}
      {value : Value RecordType} (held : items[i]? = some value) :
      Enters ⟨.list kind, .list items⟩ (.index i) ⟨kind, value⟩
  | entry {keyKind kind : Kind RecordType} {entries : List (Key × Value RecordType)} {key : Key}
      {value : Value RecordType} (sort : key.isOf keyKind)
      (held : Table.get? key entries = some value) :
      Enters ⟨.map keyKind kind, .map entries⟩ (.key key) ⟨kind, value⟩

/-- The slot that a location leads to from another one. -/
inductive Reaches : Slot → Location → Slot → Prop
  | here {slot : Slot} : Reaches slot [] slot
  | down {slot next last : Slot} {step : Step} {rest : Location} (first : Enters slot step next)
      (later : Reaches next rest last) : Reaches slot (step :: rest) last

theorem Enters.child? {slot next : Slot} {step : Step} (h : slot.Enters step next) :
    slot.value.child? step = some next.value := by
  cases h with
  | field _ held => exact held
  | element held => exact held
  | entry _ held => exact held

theorem Enters.unique {slot a b : Slot} {step : Step} (ha : slot.Enters step a)
    (hb : slot.Enters step b) : a = b := by
  cases ha <;> cases hb <;> simp_all

theorem Reaches.at? {slot last : Slot} {l : Location} (h : slot.Reaches l last) :
    slot.value.at? l = some last.value := by
  induction h with
  | here => rfl
  | down first _ ih => simpa only [Value.at?, first.child?] using ih

theorem Reaches.unique {slot a b : Slot} {l : Location} (ha : slot.Reaches l a)
    (hb : slot.Reaches l b) : a = b := by
  induction ha with
  | here => cases hb; rfl
  | down first _ ih =>
    cases hb with
    | down first' later' =>
      cases first.unique first'
      exact ih later'

theorem Reaches.append {slot middle last : Slot} {l m : Location} (hl : slot.Reaches l middle)
    (hm : middle.Reaches m last) : slot.Reaches (l ++ m) last := by
  induction hl with
  | here => exact hm
  | down first _ ih => exact .down first (ih hm)

theorem Reaches.child {slot middle last : Slot} {l : Location} {step : Step}
    (h : slot.Reaches l middle) (hs : middle.Enters step last) :
    slot.Reaches (l.child step) last :=
  h.append (.down hs .here)

theorem Reaches.split {slot last : Slot} {l m : Location} (h : slot.Reaches (l ++ m) last) :
    ∃ middle, slot.Reaches l middle ∧ middle.Reaches m last := by
  induction l generalizing slot with
  | nil => exact ⟨slot, .here, h⟩
  | cons step l ih =>
    cases h with
    | down first later =>
      obtain ⟨middle, hl, hm⟩ := ih later
      exact ⟨middle, .down first hl, hm⟩

/-- Behind a slot that is already known, a longer location goes on from it. -/
theorem Reaches.rest {slot middle last : Slot} {l m : Location} (hl : slot.Reaches l middle)
    (h : slot.Reaches (l ++ m) last) : middle.Reaches m last := by
  obtain ⟨other, hl', hm⟩ := h.split
  cases hl.unique hl'
  exact hm

end Slot

/-- The slot that a location leads to from a root, which must be a record. -/
def Value.Reaches : Value RecordType → Location → Slot → Prop
  | .record type fields, l, slot => Slot.Reaches ⟨.record type, .record type fields⟩ l slot
  | _, _, _ => False

namespace Value

theorem Reaches.record {root : Value RecordType} {l : Location} {slot : Slot}
    (h : root.Reaches l slot) : ∃ type fields, root = .record type fields ∧
      Slot.Reaches ⟨.record type, .record type fields⟩ l slot := by
  cases root <;> try contradiction
  exact ⟨_, _, rfl, h⟩

theorem Reaches.at? {root : Value RecordType} {l : Location} {slot : Slot}
    (h : root.Reaches l slot) : root.at? l = some slot.value := by
  obtain ⟨type, fields, rfl, h⟩ := h.record
  exact Slot.Reaches.at? h

theorem Reaches.child {root : Value RecordType} {l : Location} {step : Step} {slot next : Slot}
    (h : root.Reaches l slot) (hs : slot.Enters step next) : root.Reaches (l.child step) next := by
  obtain ⟨type, fields, rfl, h⟩ := h.record
  exact Slot.Reaches.child h hs

/-- Before its last step, a location leads to the slot that the step enters from. -/
theorem Reaches.of_child {root : Value RecordType} {l : Location} {step : Step} {slot : Slot}
    (h : root.Reaches (l.child step) slot) :
    ∃ container, root.Reaches l container ∧ container.Enters step slot := by
  obtain ⟨type, fields, rfl, h⟩ := h.record
  obtain ⟨container, hl, hs⟩ := Slot.Reaches.split h
  cases hs with
  | down first later =>
    cases later
    exact ⟨container, hl, first⟩

theorem Reaches.rest {root : Value RecordType} {l m : Location} {slot last : Slot}
    (hl : root.Reaches l slot) (h : root.Reaches (l ++ m) last) : slot.Reaches m last := by
  obtain ⟨type, fields, rfl, hl⟩ := hl.record
  exact Slot.Reaches.rest hl h

end Value

end FieldPatch
