import FieldPatch.Proofs.Context.Spelled
import FieldPatch.Proofs.Edit.Origin

namespace FieldPatch

/-- The step that a segment denotes in a slot for an operation: a field of that name, the element at
the index, the key that it is read as. For an insertion, the glob and an index past the end denote
the place after the last element. -/
inductive Slot.Denotes (op : Operation) : Slot → String → Step → Prop
  | field {kind : Kind RecordType} {type : RecordType} {fields : List (String × Value RecordType)}
      {name : String} (held : (Table.get? name fields).isSome = true) :
      Denotes op ⟨kind, .record type fields⟩ name (.field name)
  /-- An index behind a context is also known by its numeral, which may be too large to be read. -/
  | element {kind : Kind RecordType} {items : List (Value RecordType)} {segment : String} {i : Nat}
      (named : Integer.index? segment = some i ∨ segment = toString i) (inside : i < items.length) :
      Denotes op ⟨.list kind, .list items⟩ segment (.index i)
  | append {kind : Kind RecordType} {items : List (Value RecordType)} {segment : String}
      (asked : op = .insert)
      (past : Segment.isGlob segment = true ∨
        ∃ i, Integer.index? segment = some i ∧ items.length ≤ i) :
      Denotes op ⟨.list kind, .list items⟩ segment (.index items.length)
  | entry {keyKind kind : Kind RecordType} {entries : List (Key × Value RecordType)}
      {segment : String} {key : Key} (named : keyKind.key segment = .ok key) :
      Denotes op ⟨.map keyKind kind, .map entries⟩ segment (.key key)

theorem Kind.isOf_of_key {keyKind : Kind RecordType} {segment : String} {key : Key}
    (h : keyKind.key segment = .ok key) : key.isOf keyKind = true := by
  simp only [Kind.key] at h
  split at h
  · cases h
    rfl
  · split at h
    · cases h
      rfl
    · contradiction
  · contradiction

variable {op : Operation} {root : Value RecordType}

/-- A step is denoted by its text. -/
theorem Slot.Enters.denotes {slot next : Slot} {step : Step} (h : slot.Enters step next) :
    slot.Denotes op step.text step := by
  cases h with
  | field known held => exact .field (Option.isSome_iff_exists.mpr ⟨_, held⟩)
  | element held => exact .element (.inr rfl) (List.getElem?_eq_some_iff.mp held).1
  | entry sort held => exact .entry (Kind.key_text sort)

theorem Value.denotes_of_child? {target : Value RecordType} {step : Step}
    (h : (target.child? step).isSome = true) :
    ∃ kind, Slot.Denotes op ⟨kind, target⟩ step.text step := by
  unfold Value.child? at h
  split at h
  · exact ⟨.int, .field h⟩
  · rename_i items i
    exact ⟨.list .int, .element (.inr rfl) (by simpa using h)⟩
  · rename_i entries key
    obtain ⟨keyKind, hk⟩ : ∃ keyKind : Kind RecordType, key.isOf keyKind = true := by
      cases key with
      | str s => exact ⟨.string, rfl⟩
      | int n => exact ⟨.int, rfl⟩
    exact ⟨.map keyKind .int, .entry (Kind.key_text hk)⟩
  · contradiction

namespace Place

/-- An edit with the operation finds a slot at the place, or makes one: only an insertion goes past
the end of a list. -/
def Admits (op : Operation) : Place → Prop
  | element items index _ => op = .insert ∨ (index.filter (· < items.length)).isSome = true
  | field _ _ | entry _ _ _ => True

/-- How a segment addresses a place of a slot. -/
inductive Named (segment : String) : Slot → Place → Prop
  | field {kind : Kind RecordType} {type : RecordType} {fields : List (String × Value RecordType)}
      {declared : Field RecordType} {value : Value RecordType}
      (known : type.field? segment = some declared)
      (held : Table.get? segment fields = some value) :
      Named segment ⟨kind, .record type fields⟩ (.field segment declared.kind)
  | last {kind : Kind RecordType} {items : List (Value RecordType)}
      (glob : Segment.isGlob segment = true) :
      Named segment ⟨.list kind, .list items⟩ (.element items none kind)
  | element {kind : Kind RecordType} {items : List (Value RecordType)} {i : Nat}
      (read : Integer.index? segment = some i) :
      Named segment ⟨.list kind, .list items⟩ (.element items (some i) kind)
  | entry {keyKind kind : Kind RecordType} {entries : List (Key × Value RecordType)} {key : Key}
      (read : keyKind.key segment = .ok key) :
      Named segment ⟨.map keyKind kind, .map entries⟩ (.entry entries key kind)

theorem named_of_ofSegment {kind : Kind RecordType} {target : Value RecordType} {segment : String}
    {place : Place} (h : ofSegment kind target segment = .ok place) :
    Named segment ⟨kind, target⟩ place := by
  simp only [ofSegment] at h
  split at h
  · contradiction
  · split at h
    · rename_i hg
      cases h
      exact .last hg
    · split at h
      · rename_i hi
        cases h
        exact .element hi
      · contradiction
  · split at h
    · contradiction
    · rename_i hk
      cases h
      exact .entry hk
  · split at h
    · rename_i hf hg
      cases h
      exact .field hf hg
    · contradiction
  · contradiction

variable {slot : Slot} {place : Place} {segment : String}

theorem Named.denotes (h : Named segment slot place) (ha : place.Admits op) :
    slot.Denotes op segment place.lastStep := by
  cases h with
  | field known held => exact .field (Option.isSome_iff_exists.mpr ⟨_, held⟩)
  | last glob => exact .append (ha.resolve_right (by simp)) (.inl glob)
  | @element kind items i read =>
    by_cases hi : i < items.length
    · rw [lastStep, position_of_lt hi]
      exact .element (.inl read) hi
    · have hi := Nat.le_of_not_lt hi
      rw [lastStep, position_of_le hi]
      exact .append (ha.resolve_right (by simpa using hi)) (.inr ⟨i, read, hi⟩)
  | entry read => exact .entry read

/-- A place that a path goes on from is a slot that is there. -/
theorem Named.enters {step : Step} (h : Named segment slot place) (op : Operation)
    (hs : place.step segment = .ok step) :
    place.lastStep = step ∧ place.Admits op ∧ ∃ value, slot.Enters step ⟨place.kind, value⟩ := by
  cases h with
  | field known held =>
    cases hs
    exact ⟨rfl, trivial, _, .field known held⟩
  | last glob => contradiction
  | @element kind items i read =>
    simp only [Place.step] at hs
    split at hs
    · rename_i hi
      cases hs
      exact ⟨by rw [lastStep, position_of_lt hi], .inr (by simpa using hi), items[i],
        .element (List.getElem?_eq_getElem hi)⟩
    · contradiction
  | @entry keyKind kind entries key read =>
    simp only [Place.step] at hs
    split at hs
    · rename_i hc
      cases hs
      obtain ⟨value, hv⟩ := Option.isSome_iff_exists.mp hc
      exact ⟨rfl, trivial, value, .entry (Kind.isOf_of_key read) hv⟩
    · contradiction

end Place

namespace Cursor

/-- The slot is at the cursor or below, by the kinds declared from there on. -/
def Below (root : Value RecordType) (start : Cursor) (l : Location) (slot : Slot) : Prop :=
  ∃ rest value, l = start.location ++ rest ∧ root.at? start.location = some value ∧
    Slot.Reaches ⟨start.kind, value⟩ rest slot

/-- The slot is on the way from the root to the cursor or below. Above the cursor, the kind of the
slot is the declared one if declared kinds lead to the cursor at all. -/
inductive Passes (root : Value RecordType) (start : Cursor) : Location → Slot → Prop
  | above {l : Location} {slot : Slot} (inside : start.location.isInside l = true)
      (held : root.at? l = some slot.value)
      (declared : ∀ value, root.Reaches start.location ⟨start.kind, value⟩ → root.Reaches l slot) :
      Passes root start l slot
  | below {l : Location} {slot : Slot} (below : start.Below root l slot) : Passes root start l slot

/-- The location is what the segments denote, one step each, on a way that leads past the cursor. -/
inductive Spells (op : Operation) (root : Value RecordType) (start : Cursor) :
    List String → Location → Prop
  | root : Spells op root start [] []
  | child {segments : List String} {l : Location} {segment : String} {step : Step} {slot : Slot}
      (front : Spells op root start segments l) (passed : start.Passes root l slot)
      (denoted : slot.Denotes op segment step) :
      Spells op root start (segments ++ [segment]) (l.child step)

variable {start cursor next : Cursor} {segments front : List String} {l : Location}

theorem Spells.length (h : start.Spells op root segments l) : l.length = segments.length := by
  induction h with
  | root => rfl
  | child front passed denoted ih =>
    rw [Location.child, List.length_append, List.length_append, ih]
    rfl

theorem Below.at? {slot : Slot} (h : start.Below root l slot) :
    root.at? l = some slot.value := by
  obtain ⟨rest, value, rfl, hv, hr⟩ := h
  rw [Value.at?_append, hv]
  exact hr.at?

/-- Before the cursor, the text of each step denotes it. -/
theorem Spells.front_step (hv : (root.at? start.location).isSome = true) {step : Step}
    {rest : Location} (hl : start.location = l ++ step :: rest)
    (h : start.Spells op root l.segments l) :
    start.Spells op root (Location.segments (l.child step)) (l.child step) := by
  have hi : start.location.isInside l = true := (Location.isInside_iff _ _).mpr ⟨step, rest, hl⟩
  have ht : Location.segments (l.child step) = l.segments ++ [step.text] := by
    simp [Location.segments, Location.child]
  rw [ht]
  by_cases hd : ∃ value, root.Reaches start.location ⟨start.kind, value⟩
  · obtain ⟨value, hr⟩ := hd
    obtain ⟨type, fields, rfl, hr⟩ := hr.record
    rw [hl] at hr
    obtain ⟨slot, hs, hm⟩ := Slot.Reaches.split hr
    cases hm with
    | down first later => exact .child h (.above hi hs.at? fun _ _ => hs) first.denotes
  · -- No declared kinds lead here, so that any kind will do under which the text is read.
    obtain ⟨value, hv⟩ := Option.isSome_iff_exists.mp hv
    rw [hl, Value.at?_append] at hv
    obtain ⟨target, ht, hv⟩ := Option.bind_eq_some_iff.mp hv
    have hc : (target.child? step).isSome = true := by
      cases hc : target.child? step with
      | none => simp [Value.at?, hc] at hv
      | some child => rfl
    obtain ⟨kind, hk⟩ : ∃ kind, Slot.Denotes op ⟨kind, target⟩ step.text step :=
      Value.denotes_of_child? hc
    exact .child h (.above hi ht fun value hr => absurd ⟨value, hr⟩ hd) hk

theorem Spells.front_rest (hv : (root.at? start.location).isSome = true) {rest : Location}
    (hl : start.location = l ++ rest) (h : start.Spells op root l.segments l) :
    start.Spells op root start.location.segments start.location := by
  induction rest generalizing l with
  | nil =>
    rw [List.append_nil] at hl
    rwa [hl]
  | cons step rest ih => exact ih (by simp [hl, Location.child]) (h.front_step hv hl)

/-- The segments of its location spell the way to the cursor. -/
theorem spells_front (hv : (root.at? start.location).isSome = true) :
    start.Spells op root start.location.segments start.location :=
  .front_rest hv (List.nil_append _).symm .root

theorem below_self (hv : (root.at? start.location).isSome = true) :
    ∃ value, start.Below root start.location ⟨start.kind, value⟩ := by
  obtain ⟨value, hv⟩ := Option.isSome_iff_exists.mp hv
  exact ⟨value, [], value, (List.append_nil _).symm, hv, .here⟩

theorem Below.child {slot : Slot} {step : Step} {inner : Slot} (h : start.Below root l slot)
    (hs : slot.Enters step inner) : start.Below root (l.child step) inner := by
  obtain ⟨rest, value, rfl, hv, hr⟩ := h
  exact ⟨rest.child step, value, List.append_assoc _ _ _, hv, hr.child hs⟩

/-- The place that a segment addresses from a cursor is named by it in the cursor's slot. -/
theorem named_of_place {value : Value RecordType} {segment : String} {place : Place}
    (hv : root.at? cursor.location = some value) (h : cursor.place root segment = .ok place) :
    place.Named segment ⟨cursor.kind, value⟩ := by
  rw [Cursor.place, hv] at h
  exact Place.named_of_ofSegment h

/-- Each segment that is followed is one step further on the way. -/
theorem Spells.walk (hs : start.Spells op root front cursor.location)
    (hb : ∃ value, start.Below root cursor.location ⟨cursor.kind, value⟩)
    (h : cursor.walk root segments = .ok next) :
    start.Spells op root (front ++ segments) next.location ∧
      ∃ value, start.Below root next.location ⟨next.kind, value⟩ := by
  induction segments generalizing cursor front with
  | nil =>
    cases h
    rw [List.append_nil]
    exact ⟨hs, hb⟩
  | cons segment rest ih =>
    rw [Cursor.walk] at h
    split at h
    · contradiction
    · rename_i advanced ha
      rw [Cursor.advance] at ha
      split at ha
      · contradiction
      · rename_i place hp
        split at ha
        · contradiction
        · rename_i step hstep
          cases ha
          obtain ⟨value, hb⟩ := hb
          have hn := named_of_place hb.at? hp
          obtain ⟨hl, ha, inner, he⟩ := hn.enters op hstep
          have hd := hn.denotes ha
          rw [hl] at hd
          have ht := ih (.child hs (.below hb) hd) ⟨inner, hb.child he⟩ h
          rwa [List.append_assoc] at ht

end Cursor

namespace FieldPath

/-- The segments of a path from the root: those of its start, and its own. -/
def expanded (start : Cursor) (path : FieldPath) : List String :=
  start.location.segments ++ path.segments

variable {path : FieldPath} {contexts : ContextStack} {start next : Cursor} {d : Destination}

theorem location_of_unmarked (hu : path.usesContext = false)
    (h : path.origin root contexts = .ok start) : start.location = [] := by
  unfold origin at h
  rw [if_neg (by simp [hu])] at h
  split at h
  · cases h
    rfl
  · contradiction

/-- A path starts at a slot that is there. -/
theorem held_of_origin (h : path.origin root contexts = .ok start) :
    (root.at? start.location).isSome = true := by
  cases hu : path.usesContext with
  | true =>
    obtain ⟨c, -, rfl, hv⟩ := origin_of_context hu h
    exact hv
  | false =>
    rw [location_of_unmarked hu h]
    rfl

/-- Followed for some of its segments, a path has come to the location that they denote. -/
theorem spells_walk (op : Operation) (ho : path.origin root contexts = .ok start)
    {segments : List String}
    (hw : start.walk root segments = .ok next) :
    start.Spells op root (start.location.segments ++ segments) next.location ∧
      ∃ value, start.Below root next.location ⟨next.kind, value⟩ :=
  have hv := held_of_origin ho
  (Cursor.spells_front hv).walk (Cursor.below_self hv) hw

/-- The slot that a path leads to is the location that all its segments denote. -/
theorem spells_slot (ho : path.origin root contexts = .ok start)
    (hd : path.destination root contexts = .ok d) (ha : d.place.Admits op) :
    start.Spells op root (path.expanded start) d.slot := by
  have hv := held_of_origin ho
  rw [destination, ho] at hd
  dsimp only at hd
  rw [expanded]
  split at hd
  · rename_i hl
    rw [(Cursor.slot_of_own hd hv).1, List.getLast?_eq_none_iff.mp hl, List.append_nil]
    exact Cursor.spells_front hv
  · rename_i last hl
    obtain ⟨base, he⟩ := List.getLast?_eq_some_iff.mp hl
    rw [he, List.dropLast_concat] at hd
    rw [Cursor.destination] at hd
    split at hd
    · contradiction
    · rename_i container hw
      split at hd
      · contradiction
      · rename_i place hp
        cases hd
        obtain ⟨hs, value, hb⟩ := spells_walk op ho hw
        have hn := Cursor.named_of_place hb.at? hp
        rw [he, ← List.append_assoc]
        exact .child hs (.below hb) (hn.denotes ha)

end FieldPath

end FieldPatch
