import FieldPatch.Proofs.Schema.Instance
import FieldPatch.Proofs.Slot.Lens

namespace FieldPatch

/-- A container with one of its slots left open. An open field or entry is the first of its name or
key. -/
inductive Gap (δ : Type) where
  | field (type : δ) (before : List (String × Value δ)) (name : String)
      (after : List (String × Value δ)) (first : name ∉ Table.keys before)
  | element (before after : List (Value δ))
  | entry (before : List (Key × Value δ)) (key : Key) (after : List (Key × Value δ))
      (first : key ∉ Table.keys before)

namespace Gap

variable {δ : Type}

/-- The step into the open slot. -/
def step : Gap δ → Step
  | field _ _ name _ _ => .field name
  | element before _ => .index before.length
  | entry _ key _ _ => .key key

/-- The container with a value in the open slot. -/
def fill : Gap δ → Value δ → Value δ
  | field type before name after _, value => .record type (before ++ (name, value) :: after)
  | element before after, value => .list (before ++ value :: after)
  | entry before key after _, value => .map (before ++ (key, value) :: after)

theorem child?_fill (gap : Gap δ) (value : Value δ) :
    (gap.fill value).child? gap.step = some value := by
  cases gap with
  | field type before name after first => exact Table.get?_middle first value after
  | element before after => simp [fill, step, Value.child?]
  | entry before key after first => exact Table.get?_middle first value after

theorem setChild_fill (gap : Gap δ) (old new : Value δ) :
    (gap.fill old).setChild gap.step new = gap.fill new := by
  cases gap with
  | field type before name after first =>
    exact congrArg (Value.record type) (Table.set_middle first old new after)
  | element before after => simp [fill, step, Value.setChild]
  | entry before key after first => exact congrArg Value.map (Table.set_middle first old new after)

theorem exists_fill {value child : Value δ} {step : Step} (h : value.child? step = some child) :
    ∃ gap : Gap δ, gap.step = step ∧ gap.fill child = value := by
  cases value <;> cases step <;> try contradiction
  case record.field type fields name =>
    obtain ⟨before, after, first, rfl⟩ := Table.exists_middle h
    exact ⟨.field type before name after first, rfl, rfl⟩
  case list.index items i =>
    obtain ⟨hi, rfl⟩ := List.getElem?_eq_some_iff.mp h
    refine ⟨.element (items.take i) (items.drop (i + 1)), ?_, ?_⟩
    · rw [step, List.length_take, Nat.min_eq_left (Nat.le_of_lt hi)]
    · rw [fill, List.getElem_cons_drop, List.take_append_drop]
  case map.key entries key =>
    obtain ⟨before, after, first, rfl⟩ := Table.exists_middle h
    exact ⟨.entry before key after first, rfl, rfl⟩

theorem fill_inj {gap gap' : Gap δ} {value value' : Value δ} (hs : gap.step = gap'.step)
    (hf : gap.fill value = gap'.fill value') : gap = gap' ∧ value = value' := by
  cases gap <;> cases gap' <;> try contradiction
  case field.field type before name after first type' before' name' after' first' =>
    cases hs
    obtain ⟨rfl, he⟩ := Value.record.inj hf
    obtain ⟨rfl, rfl, rfl⟩ := Table.middle_inj first first' he
    exact ⟨rfl, rfl⟩
  case element.element before after before' after' =>
    obtain ⟨rfl, hr⟩ := List.append_inj (Value.list.inj hf) (Step.index.inj hs)
    cases hr
    exact ⟨rfl, rfl⟩
  case entry.entry before key after first before' key' after' first' =>
    cases hs
    obtain ⟨rfl, rfl, rfl⟩ := Table.middle_inj first first' (Value.map.inj hf)
    exact ⟨rfl, rfl⟩

end Gap

namespace Value

section Opens

variable {δ : Type} {root changed held new : Value δ} {l : Location} {gaps gaps' : List (Gap δ)}

/-- The root opened along a location: each gap is filled by the one behind it, the last one by the
value that the root holds there. -/
structure Opens (root : Value δ) (l : Location) (gaps : List (Gap δ)) (held : Value δ) : Prop where
  way : gaps.map Gap.step = l
  whole : gaps.foldr Gap.fill held = root

theorem Opens.at? (h : root.Opens l gaps held) : root.at? l = some held := by
  obtain ⟨rfl, rfl⟩ := h
  induction gaps with
  | nil => rfl
  | cons gap rest ih =>
    rw [List.map_cons, List.foldr_cons, Value.at?, gap.child?_fill]
    exact ih

/-- A write fills the same gaps. -/
theorem Opens.replace? (h : root.Opens l gaps held) (new : Value δ) :
    root.replace? l new = some (gaps.foldr Gap.fill new) := by
  obtain ⟨rfl, rfl⟩ := h
  induction gaps with
  | nil => rfl
  | cons gap rest ih =>
    rw [List.map_cons, List.foldr_cons, Value.replace?, gap.child?_fill]
    simp only [ih, Option.map_some, gap.setChild_fill, List.foldr_cons]

theorem Opens.refill (h : root.Opens l gaps held) (new : Value δ) :
    (gaps.foldr Gap.fill new).Opens l gaps new := ⟨h.way, rfl⟩

theorem exists_opens (h : root.at? l = some held) : ∃ gaps, root.Opens l gaps held := by
  induction l generalizing root with
  | nil =>
    cases h
    exact ⟨[], rfl, rfl⟩
  | cons step rest ih =>
    obtain ⟨child, hc, hrest⟩ := at?_cons_eq_some h
    obtain ⟨gap, rfl, rfl⟩ := Gap.exists_fill hc
    obtain ⟨gaps, hw, hf⟩ := ih hrest
    exact ⟨gap :: gaps, by rw [List.map_cons, hw], by rw [List.foldr_cons, hf]⟩

/-- A list in a list, opened at its first element. -/
example (a b c : Value δ) : Opens (.list [a, .list [b, c]]) [.index 1, .index 0]
    [.element [a] [], .element [] [c]] b := ⟨rfl, rfl⟩

theorem at?_eq_some_iff : root.at? l = some held ↔ ∃ gaps, root.Opens l gaps held :=
  ⟨exists_opens, fun ⟨_, h⟩ => h.at?⟩

theorem replace?_eq_some_iff : root.replace? l new = some changed ↔
    ∃ gaps held, root.Opens l gaps held ∧ changed.Opens l gaps new := by
  constructor
  · intro h
    have hs : (root.at? l).isSome = true := by rw [← isSome_replace? root new, h]; rfl
    obtain ⟨held, hh⟩ := Option.isSome_iff_exists.mp hs
    obtain ⟨gaps, ho⟩ := exists_opens hh
    cases h.symm.trans (ho.replace? new)
    exact ⟨gaps, held, ho, ho.refill new⟩
  · rintro ⟨gaps, held, ho, hc⟩
    rw [ho.replace? new, hc.whole]

/-- A location leads to one slot. -/
theorem Opens.unique (h : root.Opens l gaps held) (h' : root.Opens l gaps' new) :
    gaps = gaps' ∧ held = new := by
  obtain ⟨rfl, rfl⟩ := h
  obtain ⟨hw, hf⟩ := h'
  induction gaps generalizing gaps' with
  | nil =>
    obtain rfl : gaps' = [] := List.map_eq_nil_iff.mp hw
    exact ⟨rfl, hf.symm⟩
  | cons gap rest ih =>
    cases gaps' with
    | nil => contradiction
    | cons gap' rest' =>
      -- The outermost gaps have one step and make one root, so they leave the same slot open.
      obtain ⟨hs, hrest⟩ := List.cons.inj hw
      obtain ⟨rfl, hfill⟩ := Gap.fill_inj hs hf
      obtain ⟨rfl, rfl⟩ := ih hrest hfill
      exact ⟨rfl, rfl⟩

/-- The value that a write replaced restores the root. -/
theorem replace?_undo (h : root.at? l = some held) (hr : root.replace? l new = some changed) :
    changed.replace? l held = some root := by
  obtain ⟨gaps, held', ho, hc⟩ := replace?_eq_some_iff.mp hr
  cases h.symm.trans ho.at?
  rw [hc.replace? held, ho.whole]

theorem replace?_replace? (hr : root.replace? l new = some changed) (value : Value δ) :
    changed.replace? l value = root.replace? l value := by
  obtain ⟨gaps, held, ho, hc⟩ := replace?_eq_some_iff.mp hr
  rw [hc.replace? value, ho.replace? value]

end Opens

end Value

namespace RecordType

variable {type : RecordType} {values : List (Value RecordType)} {name : String} {i : Nat}

/-- The record of a type with some values, in the order of the fields. -/
def row (type : RecordType) (values : List (Value RecordType)) : Value RecordType :=
  .record type ((Table.keys type.fields).zip values)

theorem keys_zip (h : values.length = type.fields.length) :
    Table.keys ((Table.keys type.fields).zip values) = Table.keys type.fields :=
  List.map_fst_zip (Nat.le_of_eq ((List.length_map _).trans h.symm))

theorem map_snd_zip (h : values.length = type.fields.length) :
    ((Table.keys type.fields).zip values).map Prod.snd = values :=
  List.map_snd_zip (Nat.le_of_eq (h.trans (List.length_map _).symm))

theorem index?_zip (h : values.length = type.fields.length) (name : String) :
    Table.index? name ((Table.keys type.fields).zip values) = Table.index? name type.fields :=
  index?_of_keys (keys_zip h)

/-- A field is read at its place in the table of the type. -/
theorem child?_row (h : values.length = type.fields.length) (name : String) :
    (type.row values).child? (.field name) =
      (Table.index? name type.fields).bind fun i => values[i]? := by
  rw [row, Value.child?, Table.get?_eq_index?, index?_zip h, map_snd_zip h]

/-- A field is written at its place in the table of the type. -/
theorem setChild_row (h : values.length = type.fields.length)
    (hi : Table.index? name type.fields = some i) (new : Value RecordType) :
    (type.row values).setChild (.field name) new = type.row (values.set i new) := by
  rw [row, Value.setChild, Table.set_eq_zip ((index?_zip h name).trans hi), map_snd_zip h,
    keys_zip h, row]

theorem isSome_child?_row (h : values.length = type.fields.length)
    (hi : Table.index? name type.fields = some i) :
    ((type.row values).child? (.field name)).isSome = true := by
  have hl : i < values.length := by
    obtain ⟨hl, -⟩ := List.findIdx?_eq_some_iff_getElem.mp hi
    rwa [h, ← List.length_map Prod.fst]
  rw [child?_row h, hi, Option.bind_some, List.getElem?_eq_getElem hl]
  rfl

end RecordType

namespace Value

/-- What a write of one slot leaves to be read, and what it leaves to other writes of the slot. -/
structure Rewritten (root : Value RecordType) (l : Location) (new changed : Value RecordType) :
    Prop where
  held : changed.at? l = some new
  inside : ∀ more, changed.at? (l ++ more) = new.at? more
  apart : ∀ m, ¬ m.startsWith l → ¬ l.startsWith m → changed.at? m = root.at? m
  undone : ∀ old, root.at? l = some old → changed.replace? l old = some root
  overridden : ∀ last, changed.replace? l last = root.replace? l last

/-- A location of a value is read and written through one slot. -/
structure Lens (root : Value RecordType) (l : Location) : Prop where
  unique : ∀ gaps gaps' held held',
    root.Opens l gaps held → root.Opens l gaps' held' → gaps = gaps' ∧ held = held'
  read : ∀ held, root.at? l = some held ↔ ∃ gaps, root.Opens l gaps held
  write : ∀ new changed, root.replace? l new = some changed ↔
    ∃ gaps held, root.Opens l gaps held ∧ changed.Opens l gaps new
  found : ∀ new, (root.replace? l new).isSome = (root.at? l).isSome
  rewritten : ∀ new changed, root.replace? l new = some changed → root.Rewritten l new changed
  /-- A record in the slot is read and written by the places that its type gives to its fields. -/
  placed : ∀ (type : RecordType) values name, root.at? l = some (type.row values) →
    values.length = type.fields.length →
      (root.at? (l.child (.field name)) =
        (Table.index? name type.fields).bind fun i => values[i]?) ∧
      ∀ new, root.replace? (l.child (.field name)) new =
        (Table.index? name type.fields).bind fun i => root.replace? l (type.row (values.set i new))

variable {root changed new : Value RecordType} {l : Location}

theorem rewritten_of_replace? (h : root.replace? l new = some changed) :
    root.Rewritten l new changed where
  held := at?_of_replace? h
  inside := at?_replace?_append h
  apart _ hl hm := at?_replace?_of_apart h hl hm
  undone _ ho := replace?_undo ho h
  overridden := replace?_replace? h

theorem replace?_field {type : RecordType} {values : List (Value RecordType)}
    (h : root.at? l = some (type.row values)) (hl : values.length = type.fields.length)
    (name : String) (new : Value RecordType) : root.replace? (l.child (.field name)) new =
      (Table.index? name type.fields).bind fun i => root.replace? l (type.row (values.set i new)) := by
  cases hi : Table.index? name type.fields with
  | none =>
    have hc : (type.row values).child? (.field name) = none := by
      rw [RecordType.child?_row hl, hi, Option.bind_none]
    rw [Location.child, replace?_append h, replace?, hc]
    rfl
  | some i =>
    rw [replace?_child h (RecordType.isSome_child?_row hl hi), RecordType.setChild_row hl hi]
    rfl

/-- Locations are lawful lenses. A location leads to at most one slot of a value, which is told from
the value alone; reading gives what stands in this slot, and writing finds it whenever reading does
and changes nothing else. -/
theorem locations_are_lenses (root : Value RecordType) (l : Location) : root.Lens l := by
  constructor
  · intro gaps gaps' held held' h h'
    exact h.unique h'
  · intro held
    exact at?_eq_some_iff
  · intro new changed
    exact replace?_eq_some_iff
  · intro new
    exact isSome_replace? root new l
  · intro new changed h
    exact rewritten_of_replace? h
  · intro type values name h hl
    have hread : root.at? (l.child (.field name)) = (type.row values).child? (.field name) :=
      at?_child h (.field name)
    exact ⟨hread.trans (RecordType.child?_row hl name), replace?_field h hl name⟩

end Value

end FieldPatch
