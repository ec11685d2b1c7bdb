import FieldPatch.Proofs.Edit.Beside

namespace FieldPatch

theorem Table.get?_append_of_ne {κ α : Type} [DecidableEq κ] {key k : κ} {a : α}
    {table : List (κ × α)} (h : k ≠ key) : get? k (table ++ [(key, a)]) = get? k table := by
  induction table with
  | nil => grind [get?]
  | cons e rest ih => grind [get?]

theorem Table.filter_keys_erase {κ α : Type} [DecidableEq κ] (key : κ) (table : List (κ × α)) :
    (keys (erase key table)).filter (· ≠ key) = (keys table).filter (· ≠ key) := by
  induction table with
  | nil => rfl
  | cons e rest ih => grind [erase, keys]

namespace Value

variable {δ : Type} {root changed : Value δ} {l : Location}

/-- Two containers with the same slots: records of one type with their fields in the same order,
lists of one length, maps with the same keys in the same order. Where the way down ends with the
step to a key, the entry of this key may come or go. -/
inductive SameForm (way : Location) : Value δ → Value δ → Prop
  | record (type : δ) {fields fields' : List (String × Value δ)}
      (names : Table.keys fields' = Table.keys fields) :
      SameForm way (.record type fields) (.record type fields')
  | list {items items' : List (Value δ)} (length : items'.length = items.length) :
      SameForm way (.list items) (.list items')
  | map {entries entries' : List (Key × Value δ)}
      (keys : (Table.keys entries').filter (fun key => way ≠ [.key key]) =
        (Table.keys entries).filter (fun key => way ≠ [.key key])) :
      SameForm way (.map entries) (.map entries')

/-- What a change of the place at `scope` leaves: the values at all locations that are neither
around the place nor in it, and the form of every container around it. -/
structure Framed (scope : Location) (root changed : Value δ) : Prop where
  apart : ∀ l, ¬ l.startsWith scope → ¬ scope.startsWith l → changed.at? l = root.at? l
  around : ∀ l way, scope = l ++ way → way ≠ [] → ∃ before after,
    root.at? l = some before ∧ changed.at? l = some after ∧ before.SameForm way after

theorem sameForm_setChild {value child : Value δ} {step : Step} (h : value.child? step = some child)
    (new : Value δ) (way : Location) : value.SameForm way (value.setChild step new) := by
  cases value <;> cases step <;> try contradiction
  case record.field => exact .record _ (Table.keys_set _ _ _)
  case list.index => exact .list List.length_set
  case map.key => exact .map (by rw [Table.keys_set])

/-- A container around a written slot gets a new child and keeps its form. -/
theorem sameForm_replace? {way : Location} {value : Value δ}
    (h : root.replace? (l ++ way) value = some changed) (hw : way ≠ []) :
    ∃ before after, root.at? l = some before ∧ changed.at? l = some after ∧
      ∀ way, before.SameForm way after := by
  have hs : (root.at? (l ++ way)).isSome = true := by rw [← isSome_replace? root value, h]; rfl
  rw [at?_append] at hs
  cases hb : root.at? l with
  | none => simp [hb] at hs
  | some before =>
    rw [replace?_append hb] at h
    obtain ⟨after, hi, hr⟩ := Option.bind_eq_some_iff.mp h
    obtain ⟨step, rest, rfl⟩ := List.exists_cons_of_ne_nil hw
    obtain ⟨child, inner, hc, -, rfl⟩ := replace?_cons_eq_some hi
    exact ⟨before, _, rfl, at?_of_replace? hr, sameForm_setChild hc inner⟩

theorem framed_replace? {value : Value δ} (h : root.replace? l value = some changed) :
    root.Framed l changed where
  apart _ hl hm := at?_replace?_of_apart h hl hm
  around m way hs hw := by
    subst hs
    obtain ⟨before, after, hb, ha, hf⟩ := sameForm_replace? h hw
    exact ⟨before, after, hb, ha, hf way⟩

/-- A container that changes in one slot only, which may come or go, changes at that slot. -/
theorem framed_child {old new : Value δ} {step : Step} (hb : root.at? l = some old)
    (hr : root.replace? l new = some changed) (hf : old.SameForm [step] new)
    (hc : ∀ other, other ≠ step → new.child? other = old.child? other) :
    root.Framed (l.child step) changed where
  apart m hm hl := by
    have hn : ¬ l.startsWith m := fun hs => hl (Location.startsWith_trans (l.startsWith_child _) hs)
    rcases Location.apart_or_inside hn with ⟨-, hi⟩ | ⟨other, rest, rfl⟩
    · exact at?_replace?_of_apart hr hi hn
    · refine at?_of_step hb hr (hc other fun he => hm ?_) rest
      exact Location.startsWith_child_iff.mpr ⟨rest, by rw [he]⟩
  around m way hs hw := by
    obtain ⟨front, last, he⟩ := (List.eq_nil_or_concat way).resolve_left hw
    rw [List.concat_eq_append] at he
    subst he
    rw [Location.child, ← List.append_assoc] at hs
    obtain ⟨rfl, hl⟩ := List.append_inj' hs rfl
    obtain rfl : step = last := List.singleton_inj.mp hl
    by_cases hn : front = []
    · subst hn
      rw [List.append_nil] at hb hr
      exact ⟨old, new, hb, at?_of_replace? hr, hf⟩
    · obtain ⟨before, after, hb', ha, hf'⟩ := sameForm_replace? hr hn
      exact ⟨before, after, hb', ha, hf' _⟩

end Value

/-- Insertions and removals in a list move the elements behind the place. -/
def Place.shifts (op : Operation) : Place → Bool
  | element _ _ _ => op = .insert || op = .remove
  | field _ _ | entry _ _ _ => false

namespace Destination

variable {op : Operation} {value : String} {d : Destination} {root changed : Value RecordType}
  {loss : Loss}

/-- The place that an edit addresses: the list itself for an insertion or removal there, and the
slot for every other edit. -/
def scope (op : Operation) (d : Destination) : Location :=
  if d.place.shifts op then d.container else d.slot

theorem scope_of_unshifted (h : d.place.shifts op = false) : d.scope op = d.slot := by
  simp [scope, h]

theorem scope_of_shifted (h : d.place.shifts op = true) : d.scope op = d.container := by
  simp [scope, h]

theorem scope_of_own (h : d.place.resizes op = false) : d.scope op = d.slot := by
  refine scope_of_unshifted ?_
  cases hp : d.place with
  | element items index kind => rwa [hp] at h
  | _ => rfl

theorem scope_of_entry {entries : List (Key × Value RecordType)} {key : Key}
    {kind : Kind RecordType} (hp : d.place = .entry entries key kind) (op : Operation) :
    d.scope op = d.container.child (.key key) := by
  rw [scope_of_unshifted (by rw [hp]; rfl), slot_of_entry hp]

/-- Unless the elements of a list move, nothing moves. -/
theorem rebase_of_unshifted (h : d.place.shifts op = false) (value : String) (l : Location) :
    d.rebase op value l = l := by
  cases hp : d.place with
  | field name kind => exact rebase_of_own (by rw [hp]; rfl) value l
  | element items index kind => exact rebase_of_own (by rw [hp] at h ⊢; exact h) value l
  | entry entries key kind => exact rebase_of_entry hp op value l

theorem Held.framed (h : d.Held root) (op : Operation) : root.Framed (d.scope op) root := by
  cases hp : d.place with
  | field name kind =>
    simp only [Held, hp] at h
    obtain ⟨value, hv⟩ := Option.isSome_iff_exists.mp h
    rw [scope_of_own (by rw [hp]; rfl)]
    exact Value.framed_replace? (Value.replace?_self hv)
  | element items index kind =>
    simp only [Held, hp] at h
    have hr := Value.replace?_self h
    cases hs : d.place.shifts op with
    | true =>
      rw [scope_of_shifted hs]
      exact Value.framed_replace? hr
    | false =>
      rw [scope_of_unshifted hs]
      exact Value.framed_child h hr (.list rfl) fun _ _ => rfl
  | entry entries key kind =>
    simp only [Held, hp] at h
    rw [scope_of_entry hp]
    exact Value.framed_child h (Value.replace?_self h) (.map rfl) fun _ _ => rfl

/-- Whatever an edit does, it does to the place that it addresses. -/
theorem Change.framed (h : d.Change op value root loss changed) (hd : d.Held root) :
    root.Framed (d.scope op) changed := by
  cases h with
  | idle still => exact hd.framed op
  | slot own change =>
    cases change with
    | idle => exact hd.framed op
    | assign written =>
      rw [scope_of_own own]
      exact Value.framed_replace? written
    | amend held leaf written =>
      rw [scope_of_own own]
      exact Value.framed_replace? written
  | makeElement place asked made held written =>
    rw [scope_of_shifted (by rw [place, asked]; rfl)]
    exact Value.framed_replace? written
  | dropElement place inside asked held written =>
    rw [scope_of_shifted (by rw [place, asked]; rfl)]
    exact Value.framed_replace? written
  | @makeEntry entries key kind loss entry changed place asked absent part held written =>
    rw [scope_of_entry place]
    refine Value.framed_child held written (.map ?_) fun other ho => ?_
    · simp [Table.keys]
    · cases other with
      | key other => exact Table.get?_append_of_ne fun hc => ho (by rw [hc])
      | _ => rfl
  | @dropEntry entries key kind changed place asked held written =>
    rw [scope_of_entry place]
    refine Value.framed_child held written (.map ?_) fun other ho => ?_
    · simpa [eq_comm] using Table.filter_keys_erase key entries
    · cases other with
      | key other => exact Table.get?_erase_of_ne fun hc => ho (by rw [hc])
      | _ => rfl

end Destination

end FieldPatch
