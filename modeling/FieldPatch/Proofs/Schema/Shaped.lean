import FieldPatch.Proofs.Schema.Fits

namespace FieldPatch

/-- The value stands under a kind of its own shape, and so does everything in it: a list under a
list kind, a map under a map kind with keys of its sort, a record with the fields of its type. -/
inductive Shaped : Value RecordType → Kind RecordType → Prop
  | leaf {value : Value RecordType} {kind : Kind RecordType}
      (closed : ∀ step, value.child? step = none) : Shaped value kind
  | list {items : List (Value RecordType)} {kind : Kind RecordType}
      (items_shaped : ∀ item ∈ items, Shaped item kind) : Shaped (.list items) (.list kind)
  | map {entries : List (Key × Value RecordType)} {keyKind kind : Kind RecordType}
      (sort : ∀ entry ∈ entries, entry.1.isOf keyKind = true)
      (entries_shaped : ∀ entry ∈ entries, Shaped entry.2 kind) :
      Shaped (.map entries) (.map keyKind kind)
  | record {type : RecordType} {fields : List (String × Value RecordType)} {kind : Kind RecordType}
      (aligned : Table.keys fields = Table.keys type.fields)
      (fields_shaped : ∀ name declared value, type.field? name = some declared →
        Table.get? name fields = some value → Shaped value declared.kind) :
      Shaped (.record type fields) kind

namespace Shaped

variable {value child : Value RecordType} {kind : Kind RecordType} {step : Step} {l : Location}

/-- A step to a value enters the slot of that value, whose kind shapes it again. -/
theorem enters (h : Shaped value kind) (hc : value.child? step = some child) :
    ∃ next : Kind RecordType, Slot.Enters ⟨kind, value⟩ step ⟨next, child⟩ ∧
      Shaped child next := by
  cases h with
  | leaf closed =>
    rw [closed] at hc
    contradiction
  | @list items kind items_shaped =>
    cases step with
    | index i =>
      have hi : items[i]? = some child := hc
      exact ⟨kind, .element hi, items_shaped child (List.mem_of_getElem? hi)⟩
    | field name => contradiction
    | key key => contradiction
  | @map entries keyKind kind sort entries_shaped =>
    cases step with
    | key key =>
      have hg : Table.get? key entries = some child := hc
      have hm := Table.mem_of_get? hg
      exact ⟨kind, .entry (sort _ hm) hg, entries_shaped _ hm⟩
    | field name => contradiction
    | index i => contradiction
  | @record type fields kind aligned fields_shaped =>
    cases step with
    | field name =>
      have hg : Table.get? name fields = some child := hc
      have hk : type.field? name ≠ none := by
        intro hn
        rw [RecordType.field?, Table.get?_eq_none_iff, ← aligned, ← Table.get?_eq_none_iff] at hn
        simp [hn] at hg
      obtain ⟨declared, hd⟩ := Option.ne_none_iff_exists'.mp hk
      exact ⟨declared.kind, .field hd hg, fields_shaped name declared child hd hg⟩
    | index i => contradiction
    | key key => contradiction

/-- What stands at a location stands in a slot with a declared kind. -/
theorem reaches (h : Shaped value kind) (hl : value.at? l = some child) :
    ∃ last : Kind RecordType, Slot.Reaches ⟨kind, value⟩ l ⟨last, child⟩ := by
  induction l generalizing value kind with
  | nil =>
    cases hl
    exact ⟨kind, .here⟩
  | cons step rest ih =>
    obtain ⟨middle, hc, hrest⟩ := Value.at?_cons_eq_some hl
    obtain ⟨next, he, hs⟩ := h.enters hc
    obtain ⟨last, hr⟩ := ih hs hrest
    exact ⟨last, .down he hr⟩

theorem zero (kind : Kind RecordType) : Shaped kind.zero kind := by
  refine .leaf fun step => ?_
  cases kind with
  | enum type =>
    simp only [Kind.zero]
    cases type.default? with
    | none => cases step <;> rfl
    | some member => cases step <;> rfl
  | _ => cases step <;> rfl

/-- A new record is laid out as its type says, if the initial values are. -/
theorem fresh {type : RecordType} (kind : Kind RecordType)
    (h : ∀ name declared value, type.field? name = some declared →
      declared.initial = some value → Shaped value declared.kind) : Shaped type.fresh kind := by
  refine .record ?_ ?_
  · simp [Table.keys, Function.comp_def]
  · intro name declared value hd hv
    cases (RecordType.get?_fresh hd).symm.trans hv
    cases hi : declared.initial with
    | none => exact zero declared.kind
    | some initial => exact h name declared initial hd hi

end Shaped

end FieldPatch
