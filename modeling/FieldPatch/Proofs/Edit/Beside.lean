import FieldPatch.Proofs.Edit.Change

namespace FieldPatch

namespace Value

variable {δ : Type} {root changed : Value δ} {base l : Location}

/-- The slots under one step of the old value are now under another step of the new one. -/
theorem at?_of_step {old new : Value δ} {step step' : Step} (hb : root.at? base = some old)
    (hr : root.replace? base new = some changed) (hc : new.child? step' = old.child? step)
    (rest : Location) : changed.at? (base ++ step' :: rest) = root.at? (base ++ step :: rest) := by
  rw [at?_replace?_append hr, at?_append, hb, Option.bind_some]
  simp only [at?, hc]

theorem at?_moveIndex {items items' : List (Value δ)} {move : Nat → Nat} {v : Value δ}
    (hb : root.at? base = some (.list items))
    (hr : root.replace? base (.list items') = some changed) (hv : root.at? l = some v)
    (hn : ¬ base.startsWith l)
    (hm : ∀ i, l.startsWith (base.child (.index i)) → items'[move i]? = items[i]?) :
    changed.at? (base.moveIndex move l) = some v := by
  rcases Location.apart_or_inside hn with ⟨hi, hs⟩ | ⟨step, rest, rfl⟩
  · rw [Location.moveIndex_of_not_inside move hi, at?_replace?_of_apart hr hs hn, hv]
  · cases step with
    | field name => simp [at?_append, hb, at?, child?] at hv
    | key key => simp [at?_append, hb, at?, child?] at hv
    | index i =>
      have hc : (list items').child? (.index (move i)) = (list items).child? (.index i) :=
        hm i (Location.startsWith_child_iff.mpr ⟨rest, rfl⟩)
      rw [Location.moveIndex_index, at?_of_step hb hr hc, hv]

theorem at?_of_entries {entries entries' : List (Key × Value δ)} {v : Value δ}
    (hb : root.at? base = some (.map entries))
    (hr : root.replace? base (.map entries') = some changed) (hv : root.at? l = some v)
    (hn : ¬ base.startsWith l)
    (hm : ∀ key w, l.startsWith (base.child (.key key)) → Table.get? key entries = some w →
      Table.get? key entries' = some w) : changed.at? l = some v := by
  rcases Location.apart_or_inside hn with ⟨-, hs⟩ | ⟨step, rest, rfl⟩
  · rw [at?_replace?_of_apart hr hs hn, hv]
  · cases step with
    | field name => simp [at?_append, hb, at?, child?] at hv
    | index i => simp [at?_append, hb, at?, child?] at hv
    | key key =>
      have hk : (base ++ Step.key key :: rest : Location).startsWith (base.child (.key key)) :=
        Location.startsWith_child_iff.mpr ⟨rest, rfl⟩
      have hc : (map entries').child? (.key key) = (map entries).child? (.key key) := by
        cases hg : Table.get? key entries with
        | none => simp [at?_append, hb, at?, child?, hg] at hv
        | some w =>
          simp only [child?]
          rw [hm key w hk hg, hg]
      rw [at?_of_step hb hr hc, hv]

end Value

namespace Destination

variable {op : Operation} {value : String} {d : Destination} {root changed : Value RecordType}
  {loss : Loss} {l : Location}

theorem changes_of_own (h : d.place.resizes op = false) : d.changes op = d.slot := by
  simp [changes, h]

theorem changes_of_resizes (h : d.place.resizes op = true) : d.changes op = d.container := by
  simp [changes, h]

/-- A slot around the place that an edit changes stays where it is. -/
theorem rebase_of_encloses (h : (d.changes op).startsWith l) : d.rebase op value l = l := by
  obtain ⟨container, place⟩ := d
  have hm (move : Nat → Nat) (hs : container.startsWith l) : container.moveIndex move l = l := by
    refine Location.moveIndex_of_not_inside move fun hi => ?_
    obtain ⟨hl, hn⟩ := Location.isInside_iff_startsWith.mp hi
    exact hn (Location.startsWith_antisymm hl hs)
  unfold rebase
  split
  · rename_i hp
    have hs : container.startsWith l := by
      rwa [changes_of_resizes (by rw [hp]; rfl)] at h
    split
    · exact hm _ hs
    · rfl
  · rename_i hp
    have hs : container.startsWith l := by
      rwa [changes_of_resizes (by rw [hp]; rfl)] at h
    split
    · exact hm _ hs
    · rfl
  · rfl

/-- A slot that an edit of another slot leaves has its value after it. -/
theorem at?_slotChange {slot : Location} {v : Value RecordType}
    (h : root.SlotChange slot loss changed) (ht : loss.takes slot l = false)
    (hv : root.at? l = some v) (hn : ¬ slot.startsWith l) : changed.at? l = some v := by
  cases h with
  | idle => exact hv
  | assign written =>
    rcases Location.apart_or_inside hn with ⟨-, hs⟩ | ⟨step, rest, rfl⟩
    · rw [Value.at?_replace?_of_apart written hs hn, hv]
    · have hi : (slot ++ step :: rest : Location).isInside slot :=
        (Location.isInside_iff _ _).mpr ⟨step, rest, rfl⟩
      rw [Loss.takes, hi] at ht
      contradiction
  | amend held leaf written =>
    rcases Location.apart_or_inside hn with ⟨-, hs⟩ | ⟨step, rest, rfl⟩
    · rw [Value.at?_replace?_of_apart written hs hn, hv]
    · simp [Value.at?_append, held, Value.at?, leaf] at hv

/-- Where a slot is after an edit, it has the value that it had, unless the edit took it away or it
is the place that the edit changes or a slot around that. -/
theorem Change.at?_rebase (h : d.Change op value root loss changed)
    (ht : loss.takes d.slot l = false) {v : Value RecordType} (hv : root.at? l = some v)
    (hn : ¬ (d.changes op).startsWith l) : changed.at? (d.rebase op value l) = some v := by
  cases h with
  | idle still => rwa [still]
  | slot own change =>
    rw [changes_of_own own] at hn
    rw [rebase_of_own own]
    exact at?_slotChange change ht hv hn
  | @makeElement items index kind _ entry _ place asked made held written =>
    subst asked
    rw [changes_of_resizes (by rw [place]; rfl)] at hn
    rw [rebase_of_made place made]
    refine Value.at?_moveIndex held written hv hn fun i _ => ?_
    have hp := Place.position_le items index
    rw [List.getElem?_insertIdx]
    grind
  | @dropElement items index dropped kind _ place inside asked held written =>
    subst asked
    rw [changes_of_resizes (by rw [place]; rfl)] at hn
    rw [rebase_of_dropped place inside]
    refine Value.at?_moveIndex held written hv hn fun i hs => ?_
    have hi : i ≠ dropped := by
      rintro rfl
      rw [Loss.takes, slot_of_element place inside, hs] at ht
      contradiction
    rw [List.getElem?_eraseIdx]
    grind
  | makeEntry place asked absent part held written =>
    subst asked
    rw [changes_of_resizes (by rw [place]; rfl)] at hn
    rw [rebase_of_entry place]
    exact Value.at?_of_entries held written hv hn fun key w _ hw =>
      Table.get?_append_of_eq_some hw
  | @dropEntry entries dropped kind _ place asked held written =>
    subst asked
    rw [changes_of_resizes (by rw [place]; rfl)] at hn
    rw [rebase_of_entry place]
    refine Value.at?_of_entries held written hv hn fun key w hs hw => ?_
    have hk : key ≠ dropped := by
      rintro rfl
      rw [Loss.takes, slot_of_entry place, hs] at ht
      contradiction
    rw [Table.get?_erase_of_ne hk, hw]

/-- An edit that leaves the config as it was moves nothing in it. -/
theorem Change.still_of_same (h : d.Change op value root loss root) (l : Location) :
    d.rebase op value l = l := by
  cases h with
  | idle still => exact still l
  | slot own change => exact rebase_of_own own value l
  | @makeElement items index kind _ entry _ place asked made held written =>
    have he : items.insertIdx (Place.position items index) entry = items := by
      have hs := (Value.at?_of_replace? written).symm.trans held
      simpa using hs
    have hp := Place.position_le items index
    have hl := congrArg List.length he
    rw [List.length_insertIdx_of_le_length hp] at hl
    omega
  | @dropElement items index i kind _ place inside asked held written =>
    have he : items.eraseIdx i = items := by
      have hs := (Value.at?_of_replace? written).symm.trans held
      simpa using hs
    have hi := Place.lt_of_inside inside
    have hl := congrArg List.length he
    rw [List.length_eraseIdx_of_lt hi] at hl
    omega
  | makeEntry place asked absent part held written => exact rebase_of_entry place op value l
  | dropEntry place asked held written => exact rebase_of_entry place op value l

end Destination

end FieldPatch
