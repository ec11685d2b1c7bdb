import FieldPatch.Proofs.Slot.Change

namespace FieldPatch

/-- The key is a text where texts are asked for, and a number where numbers are. -/
def Key.Suits (key : Key) (kind : Kind RecordType) : Prop :=
  (kind = .string → ∃ text, key = .str text) ∧ (kind = .int → ∃ number, key = .int number)

/-- The value fits the kind, and every record in it is of one of the types. -/
inductive Fits (types : RecordType → Prop) : Value RecordType → Kind RecordType → Prop
  | null {kind : Kind RecordType} (reference : kind.isValueKind = false) : Fits types .null kind
  | noMember {type : EnumType} (empty : type.members = []) : Fits types .null (.enum type)
  | string {text : String} : Fits types (.string text) .string
  | bool {flag : Bool} : Fits types (.bool flag) .bool
  | int {number : Int32} : Fits types (.int number) .int
  | float {number : Binary32} : Fits types (.float number) .float
  | vector {dim : Dim} {components : Vector Binary32 dim.size} :
      Fits types (.vector dim components) (.vector dim)
  | color {color : Color} : Fits types (.color color) .color
  | enum {type : EnumType} {member : String} (known : member ∈ type.members) :
      Fits types (.enum member) (.enum type)
  | stringSet {members : StringSet} : Fits types (.stringSet members) .stringSet
  | list {kind : Kind RecordType} {items : List (Value RecordType)}
      (items_fit : ∀ item ∈ items, Fits types item kind) : Fits types (.list items) (.list kind)
  | map {keyKind kind : Kind RecordType} {entries : List (Key × Value RecordType)}
      (keys_suit : ∀ entry ∈ entries, entry.1.Suits keyKind)
      (entries_fit : ∀ entry ∈ entries, Fits types entry.2 kind) :
      Fits types (.map entries) (.map keyKind kind)
  | record {type : RecordType} {kind : Kind RecordType} {fields : List (String × Value RecordType)}
      (known : types type) (accepted : kind.accepts type = true)
      (aligned : Table.keys fields = Table.keys type.fields)
      (fields_fit : ∀ name declared value, type.field? name = some declared →
        Table.get? name fields = some value → Fits types value declared.kind) :
      Fits types (.record type fields) kind

/-- The types of the records that the kind asks for are among the types. -/
def Kind.Over (types : RecordType → Prop) : Kind RecordType → Prop
  | .list element => element.Over types
  | .map _ value => value.Over types
  | .record type => types type
  | _ => True

/-- Record types that refer to each other only, and whose initial values fit. -/
structure Schema where
  types : RecordType → Prop
  closed : ∀ type, types type → ∀ name field, type.field? name = some field →
    field.kind.Over types
  initial_fits : ∀ type, types type → ∀ name field value, type.field? name = some field →
    field.initial = some value → Fits types value field.kind

theorem Key.suits_of_isOf {key : Key} {kind : Kind RecordType} (h : key.isOf kind) :
    key.Suits kind := by
  cases key <;> cases kind <;> simp_all [isOf, Suits]

theorem RecordType.get?_fresh {type : RecordType} {name : String} {declared : Field RecordType}
    (h : type.field? name = some declared) :
    Table.get? name (type.fields.map fun e => (e.1, e.2.initial.getD e.2.kind.zero)) =
      some (declared.initial.getD declared.kind.zero) := by
  rw [field?] at h
  generalize type.fields = fields at h
  induction fields with
  | nil => simp [Table.get?] at h
  | cons first rest ih =>
    simp only [List.map_cons, Table.get?] at h ⊢
    by_cases hn : first.1 = name
    · rw [if_pos hn] at h ⊢
      cases h
      rfl
    · rw [if_neg hn] at h ⊢
      exact ih h

namespace Slot

structure Fits (S : Schema) (slot : Slot) : Prop where
  value : FieldPatch.Fits S.types slot.value slot.kind
  covered : slot.kind.Over S.types

variable {S : Schema} {slot next last : Slot} {step : Step}

theorem Enters.fits (h : slot.Enters step next) (hf : slot.Fits S) : next.Fits S := by
  obtain ⟨hv, ho⟩ := hf
  cases h with
  | field known held =>
    cases hv with
    | record listed accepted aligned fields_fit =>
      exact ⟨fields_fit _ _ _ known held, S.closed _ listed _ _ known⟩
  | element held =>
    cases hv with
    | list items_fit => exact ⟨items_fit _ (List.mem_of_getElem? held), ho⟩
  | entry sort held =>
    cases hv with
    | map keys_suit entries_fit => exact ⟨entries_fit _ (Table.mem_of_get? held), ho⟩

theorem Reaches.fits {l : Location} (h : slot.Reaches l last) (hf : slot.Fits S) :
    last.Fits S := by
  induction h with
  | here => exact hf
  | down first _ ih => exact ih (first.fits hf)

theorem Enters.fits_setChild (h : slot.Enters step next) (hf : slot.Fits S)
    {child : Value RecordType} (hc : FieldPatch.Fits S.types child next.kind) :
    FieldPatch.Fits S.types (slot.value.setChild step child) slot.kind := by
  obtain ⟨hv, -⟩ := hf
  cases h with
  | @field kind type fields name declared value known held =>
    cases hv with
    | record listed accepted aligned fields_fit =>
      refine .record listed accepted ((Table.keys_set _ _ _).trans aligned) ?_
      intro other field v hk hg
      rw [Table.get?_set] at hg
      split at hg
      · rename_i he
        subst he
        cases known.symm.trans hk
        rw [held] at hg
        cases hg
        exact hc
      · exact fields_fit other field v hk hg
  | element held =>
    cases hv with
    | list items_fit =>
      refine .list fun item hm => ?_
      rcases List.mem_or_eq_of_mem_set hm with hm | rfl
      · exact items_fit item hm
      · exact hc
  | entry sort held =>
    cases hv with
    | map keys_suit entries_fit =>
      refine .map (fun entry hm => ?_) fun entry hm => ?_
      · rcases Table.mem_set hm with hm | rfl
        · exact keys_suit entry hm
        · exact Key.suits_of_isOf sort
      · rcases Table.mem_set hm with hm | rfl
        · exact entries_fit entry hm
        · exact hc

theorem Reaches.fits_replace {l : Location} {value changed : Value RecordType}
    (h : slot.Reaches l last) (hf : slot.Fits S)
    (hv : FieldPatch.Fits S.types value last.kind)
    (hr : slot.value.replace? l value = some changed) :
    FieldPatch.Fits S.types changed slot.kind := by
  induction h generalizing changed with
  | here =>
    cases hr
    exact hv
  | down first _ ih =>
    simp only [Value.replace?, first.child?, Option.map_eq_some_iff] at hr
    obtain ⟨inner, hi, rfl⟩ := hr
    exact first.fits_setChild hf (ih (first.fits hf) hv hi)

end Slot

namespace Schema

structure Holds (S : Schema) (type : RecordType) (root : Value RecordType) : Prop where
  record : ∃ fields, root = .record type fields
  fits : Fits S.types root (.record type)

variable {S : Schema} {type : RecordType} {root changed value : Value RecordType} {l : Location}
  {slot : Slot}

theorem Holds.root_fits (h : S.Holds type root) : Slot.Fits S ⟨.record type, root⟩ := by
  obtain ⟨⟨fields, rfl⟩, hf⟩ := h
  refine ⟨hf, ?_⟩
  cases hf with
  | record known accepted aligned fields_fit => exact known

theorem Holds.reaches (h : S.Holds type root) (hr : root.Reaches l slot) :
    Slot.Reaches ⟨.record type, root⟩ l slot := by
  obtain ⟨⟨fields, rfl⟩, -⟩ := h
  exact hr

theorem Holds.slot_fits (h : S.Holds type root) (hr : root.Reaches l slot) : slot.Fits S :=
  (h.reaches hr).fits h.root_fits

/-- A config still fits after a fitting value was written to one of its slots. -/
theorem Holds.replace (h : S.Holds type root) (hr : root.Reaches l slot) (hl : l ≠ [])
    (hv : Fits S.types value slot.kind) (hw : root.replace? l value = some changed) :
    S.Holds type changed := by
  refine ⟨?_, (h.reaches hr).fits_replace h.root_fits hv hw⟩
  obtain ⟨⟨fields, rfl⟩, -⟩ := h
  exact Value.replace?_record hl hw

end Schema

end FieldPatch
