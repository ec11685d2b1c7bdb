import FieldPatch.Proofs.Context.Anchored
import FieldPatch.Proofs.Edit.Destination

namespace FieldPatch

/-- The fault says that a context leads nowhere. -/
def Fault.isStale : Fault → Bool
  | staleContext _ => true
  | _ => false

/-- A result that is as `good` says, or a fault that blames no context. -/
def Lands {α : Type} (good : α → Prop) : Except Fault α → Prop
  | .ok a => good a
  | .error fault => fault.isStale = false

/-- The place is one that the slot has, by a step that a path can name. -/
inductive Place.Of : Slot → Place → Prop
  | field {kind : Kind RecordType} {type : RecordType} {fields : List (String × Value RecordType)}
      {name : String} {declared : Field RecordType} {value : Value RecordType}
      (known : type.field? name = some declared) (held : Table.get? name fields = some value)
      (plain : Segment.Plain name) : Of ⟨kind, .record type fields⟩ (.field name declared.kind)
  | element {kind : Kind RecordType} {items : List (Value RecordType)} {index : Option Nat} :
      Of ⟨.list kind, .list items⟩ (.element items index kind)
  | entry {keyKind kind : Kind RecordType} {entries : List (Key × Value RecordType)} {key : Key}
      (sort : key.isOf keyKind) (plain : Segment.Plain key.text) :
      Of ⟨.map keyKind kind, .map entries⟩ (.entry entries key kind)

structure Cursor.Anchored (root : Value RecordType) (cursor : Cursor) : Prop where
  reaches : ∃ value, root.Reaches cursor.location ⟨cursor.kind, value⟩
  plain : cursor.location.Plain

/-- The container is there, and the place is one of its places. -/
structure Destination.Sound (root : Value RecordType) (d : Destination) : Prop where
  place : ∃ slot, root.Reaches d.container slot ∧ d.place.Of slot
  plain : d.container.Plain

theorem Kind.key_lands (keyKind : Kind RecordType) {segment : String}
    (hs : Segment.Plain segment) :
    Lands (fun key => key.isOf keyKind = true ∧ Segment.Plain key.text) (keyKind.key segment) := by
  simp only [Kind.key]
  split
  · exact ⟨rfl, hs⟩
  · split
    · exact ⟨rfl, Segment.plain_repr _⟩
    · rfl
  · rfl

namespace Place

theorem ofSegment_lands (kind : Kind RecordType) (target : Value RecordType) {segment : String}
    (hs : Segment.Plain segment) :
    Lands (Place.Of ⟨kind, target⟩) (Place.ofSegment kind target segment) := by
  simp only [ofSegment]
  split
  · rfl
  · split
    · exact .element
    · split
      · exact .element
      · rfl
  · rename_i keyKind valueKind entries
    have hk := keyKind.key_lands hs
    split
    · rename_i he
      rwa [he] at hk
    · rename_i he
      rw [he] at hk
      exact .entry hk.1 hk.2
  · split
    · rename_i hf hg
      exact .field hf hg hs
    · rfl
  · rfl

theorem step_lands (segment : String) {slot : Slot} {place : Place} (h : place.Of slot) :
    Lands (fun step => (∃ value, slot.Enters step ⟨place.kind, value⟩) ∧ Segment.Plain step.text)
      (place.step segment) := by
  cases h with
  | field known held plain => exact ⟨⟨_, .field known held⟩, plain⟩
  | @element kind items index =>
    cases index with
    | none => rfl
    | some i =>
      simp only [step]
      split
      · rename_i hi
        exact ⟨⟨items[i], .element (List.getElem?_eq_getElem hi)⟩, Step.plain_index i⟩
      · rfl
  | @entry keyKind kind entries key sort plain =>
    simp only [step]
    split
    · rename_i hc
      obtain ⟨value, hv⟩ := Option.isSome_iff_exists.mp hc
      exact ⟨⟨value, .entry sort hv⟩, plain⟩
    · rfl

/-- The last step to a slot is a place of its container. -/
theorem ofStep?_of {slot : Slot} {step : Step} {kind : Kind RecordType} {value : Value RecordType}
    (h : slot.Enters step ⟨kind, value⟩) (hs : Segment.Plain step.text) :
    ∃ place, Place.ofStep? slot.value step kind = some place ∧ place.Of slot := by
  cases h with
  | field known held => exact ⟨_, rfl, .field known held hs⟩
  | element held => exact ⟨_, rfl, .element⟩
  | entry sort held => exact ⟨_, rfl, .entry sort hs⟩

end Place

namespace Cursor

variable {root : Value RecordType} {cursor : Cursor}

theorem Anchored.place_lands (h : cursor.Anchored root) {segment : String}
    (hs : Segment.Plain segment) :
    Lands (fun place => Destination.Sound root ⟨cursor.location, place⟩)
      (cursor.place root segment) := by
  obtain ⟨⟨value, hr⟩, hp⟩ := h
  rw [place]
  rw [hr.at?]
  have hl := Place.ofSegment_lands cursor.kind value hs
  dsimp only
  generalize Place.ofSegment cursor.kind value segment = r at hl
  cases r with
  | error fault => exact hl
  | ok place => exact ⟨⟨_, hr, hl⟩, hp⟩

theorem Anchored.advance_lands (h : cursor.Anchored root) {segment : String}
    (hs : Segment.Plain segment) :
    Lands (Cursor.Anchored root) (cursor.advance root segment) := by
  have hl := h.place_lands hs
  rw [advance]
  generalize cursor.place root segment = r at hl
  cases r with
  | error fault => exact hl
  | ok place =>
    obtain ⟨⟨slot, hr, ho⟩, hp⟩ := hl
    have ht := Place.step_lands segment ho
    dsimp only
    generalize place.step segment = r at ht
    cases r with
    | error fault => exact ht
    | ok step =>
      obtain ⟨⟨value, hv⟩, hq⟩ := ht
      exact ⟨⟨value, hr.child hv⟩, hp.child hq⟩

theorem Anchored.walk_lands (h : cursor.Anchored root) {segments : List String}
    (hs : ∀ s ∈ segments, Segment.Plain s) :
    Lands (Cursor.Anchored root) (cursor.walk root segments) := by
  induction segments generalizing cursor with
  | nil => exact h
  | cons segment rest ih =>
    have ha := h.advance_lands (hs segment List.mem_cons_self)
    rw [walk]
    generalize cursor.advance root segment = r at ha
    cases r with
    | error fault => exact ha
    | ok next => exact ih ha fun s hm => hs s (List.mem_cons_of_mem _ hm)

theorem Anchored.own_lands (h : cursor.Anchored root) (hn : cursor.location ≠ []) :
    Lands (Destination.Sound root) (cursor.own root) := by
  obtain ⟨location, kind⟩ := cursor
  obtain ⟨base, step, hl⟩ := (List.eq_nil_or_concat location).resolve_left hn
  rw [List.concat_eq_append] at hl
  subst hl
  obtain ⟨⟨value, hr⟩, hp⟩ := h
  obtain ⟨hb, hs⟩ := Location.plain_append.mp hp
  obtain ⟨container, hc, he⟩ := Value.Reaches.of_child hr
  obtain ⟨place, hf, ho⟩ := Place.ofStep?_of he (Location.plain_cons.mp hs).1
  simp only [own, List.getLast?_concat, List.dropLast_concat, hc.at?, Option.bind_some, hf]
  exact ⟨⟨container, hc, ho⟩, hb⟩

theorem Anchored.destination_lands (h : cursor.Anchored root) {segments : List String}
    {last : String} (hs : ∀ s ∈ segments, Segment.Plain s) (hl : Segment.Plain last) :
    Lands (Destination.Sound root) (cursor.destination root segments last) := by
  have hw := h.walk_lands hs
  rw [destination]
  generalize cursor.walk root segments = r at hw
  cases r with
  | error fault => exact hw
  | ok container =>
    have hd := hw.place_lands hl
    dsimp only
    generalize container.place root last = r at hd
    cases r with
    | error fault => exact hd
    | ok place => exact hd

end Cursor

namespace FieldPath

variable {root : Value RecordType} {contexts : ContextStack} {path : FieldPath}

theorem origin_lands (path : FieldPath) (h : contexts.Anchored root) :
    Lands (fun cursor => cursor.Anchored root ∧
      (path.usesContext = true → cursor.location ≠ [])) (path.origin root contexts) := by
  simp only [origin]
  split
  · cases hg : contexts.get? path.contextDepth with
    | none => rfl
    | some context =>
      obtain ⟨value, hc⟩ := h context (ContextStack.mem_of_get? hg)
      simp only [List.isEmpty_eq_false_iff.mpr hc.below, hc.reaches.at?, Option.isNone_some,
        Bool.or_self, Bool.false_eq_true, if_false]
      exact ⟨⟨⟨value, hc.reaches⟩, hc.plain⟩, fun _ => hc.below⟩
  · rename_i hu
    cases root with
    | record type fields =>
      exact ⟨⟨⟨.record type fields, .here⟩, Location.plain_nil⟩, fun hc => absurd hc hu⟩
    | _ => rfl

/-- A path that was read leads to a place, or to a fault that blames no context. -/
theorem destination_lands (h : contexts.Anchored root) (hp : path.Plain) :
    Lands (Destination.Sound root) (path.destination root contexts) := by
  have ho := path.origin_lands h
  rw [destination]
  generalize path.origin root contexts = r at ho
  cases r with
  | error fault => exact ho
  | ok cursor =>
    obtain ⟨ha, hb⟩ := ho
    dsimp only
    cases hl : path.segments.getLast? with
    | none => exact ha.own_lands (hb (hp.starts (List.getLast?_eq_none_iff.mp hl)))
    | some last =>
      have hm := List.mem_of_getLast? hl
      exact ha.destination_lands (fun s hs => hp.segments s (List.dropLast_subset _ hs))
        (hp.segments last hm)

end FieldPath

end FieldPatch
