import FieldPatch.Proofs.Edit.Entry

namespace FieldPatch

/-- An edit of a slot in a container changes the container in this slot only. -/
theorem Value.SlotChange.child {root base changed : Value RecordType} {container : Location}
    {step : Step} {loss : Loss} (hb : root.at? container = some base)
    (hs : (base.child? step).isSome = true)
    (h : root.SlotChange (container.child step) loss changed) :
    ∃ entry, root.replace? container (base.setChild step entry) = some changed := by
  obtain ⟨old, ho⟩ := Option.isSome_iff_exists.mp hs
  cases h with
  | idle => exact ⟨old, by rw [Value.setChild_self ho, Value.replace?_self hb]⟩
  | assign written => exact ⟨_, (Value.replace?_child hb hs).symm.trans written⟩
  | amend held leaf written => exact ⟨_, (Value.replace?_child hb hs).symm.trans written⟩

namespace Editing

variable {tags : TagTable} {kind : Kind RecordType} {e : Editing}

theorem editSlot_written {container : Location} {base : Value RecordType} {step : Step}
    (hb : e.root.at? container = some base) (hs : (base.child? step).isSome = true) :
    ∃ entry, e.root.replace? container (base.setChild step entry) =
      some (editSlot tags (container.child step) kind e).2.root := by
  obtain ⟨old, ho⟩ := Option.isSome_iff_exists.mp hs
  have hat : e.root.at? (container.child step) = some old := by
    rw [Location.child, Value.at?_append, hb]
    simp [Value.at?, ho]
  have ha : SlotAccount (container.child step) kind e
      (editSlot tags (container.child step) kind e) := editSlot_account hat
  obtain ⟨loss, hc, -⟩ := ha
  exact hc.child hb hs

/-- How an edit of a list ends, at an index that may be behind the last element. -/
structure EditsElements (tags : TagTable) (list : Location) (items : List (Value RecordType))
    (index : Option Nat) (kind : Kind RecordType) (e : Editing) (r : Result) : Prop where
  inserts : e.progress.op = .insert →
    Inserts tags list kind
      (fun entry => .list (items.insertIdx (Place.position items index) entry))
      (e.contexts.afterInsert list (Place.position items index)) e r
  removes : e.progress.op = .remove → ∀ i, index.filter (· < items.length) = some i →
    r.1 = .ok .removed ∧ e.root.replace? list (.list (items.eraseIdx i)) = some r.2.root
  changes : e.progress.op ≠ .insert → e.progress.op ≠ .remove →
    ∀ i, index.filter (· < items.length) = some i →
      ∃ entry, e.root.replace? list (.list (items.set i entry)) = some r.2.root
  outside : e.progress.op ≠ .insert → index.filter (· < items.length) = none →
    r = (.error (.elementOutOfRange e.progress.op e.progress.segment items.length), e)

theorem editElement_edits {list : Location} {items : List (Value RecordType)}
    {index : Option Nat} (hl : e.root.at? list = some (.list items)) :
    EditsElements tags list items index kind e (editElement tags list items index kind e) where
  inserts := by
    intro ho
    simp only [editElement, ho]
    exact insertElement_inserts hl (Place.position_le items index)
  removes := by
    intro ho i hi
    simp only [editElement, ho, hi, root_dropElement]
    exact ⟨trivial, root_amend_written hl _⟩
  changes := by
    intro hn hr i hi
    have hs : ((Value.list items).child? (.index i)).isSome = true := by
      simpa [Value.child?] using Place.lt_of_inside hi
    simp only [editElement, hi]
    exact editSlot_written hl hs
  outside := by
    intro hn hf
    simp only [editElement, hf]

/-- How an edit of a map ends, at a key that it may not hold. -/
structure EditsEntries (tags : TagTable) (map : Location)
    (entries : List (Key × Value RecordType)) (key : Key) (kind : Kind RecordType) (e : Editing)
    (r : Result) : Prop where
  inserts : e.progress.op = .insert → Table.contains key entries = false →
    Inserts tags map kind (fun entry => .map (entries ++ [(key, entry)])) e.contexts e r
  keeps : e.progress.op = .insert → Table.contains key entries = true →
    r.1 = .ok .noOp ∧ r.2.root = e.root
  removes : e.progress.op = .remove → Table.contains key entries = true →
    r.1 = .ok .removed ∧ e.root.replace? map (.map (Table.erase key entries)) = some r.2.root
  changes : e.progress.op ≠ .insert → e.progress.op ≠ .remove →
    Table.contains key entries = true →
      ∃ entry, e.root.replace? map (.map (Table.set key entry entries)) = some r.2.root
  missing : e.progress.op ≠ .insert → Table.contains key entries = false →
    r = (.error (.missingKey key), e)

theorem editEntry_edits {map : Location} {entries : List (Key × Value RecordType)} {key : Key}
    (hm : e.root.at? map = some (.map entries)) :
    EditsEntries tags map entries key kind e (editEntry tags map entries key kind e) where
  inserts := by
    intro ho hc
    simp only [editEntry, ho, hc]
    exact insertEntry_inserts hm (by simpa [Table.contains] using hc)
  keeps := by
    intro ho hc
    simp only [editEntry, ho, hc]
    exact ⟨trivial, rfl⟩
  removes := by
    intro ho hc
    simp only [editEntry, ho, hc, root_dropEntry]
    exact ⟨trivial, root_amend_written hm _⟩
  changes := by
    intro hn hr hc
    have hs : ((Value.map entries).child? (.key key)).isSome = true := hc
    simp only [editEntry, hc]
    exact editSlot_written hm hs
  missing := by
    intro hn hc
    simp only [editEntry, hc]

/-- A map whose keys are distinct has distinct keys after the edit, also if it was refused. -/
theorem EditsEntries.distinct {map : Location} {entries : List (Key × Value RecordType)}
    {key : Key} {r : Result} (h : EditsEntries tags map entries key kind e r)
    (hm : e.root.at? map = some (.map entries)) (hd : (Table.keys entries).Nodup) :
    ∃ after, r.2.root.at? map = some (.map after) ∧ (Table.keys after).Nodup := by
  have still (hr : r.2.root = e.root) :
      ∃ after, r.2.root.at? map = some (.map after) ∧ (Table.keys after).Nodup :=
    ⟨entries, hr ▸ hm, hd⟩
  have written {after : List (Key × Value RecordType)}
      (hw : e.root.replace? map (.map after) = some r.2.root) (hn : (Table.keys after).Nodup) :
      ∃ after, r.2.root.at? map = some (.map after) ∧ (Table.keys after).Nodup :=
    ⟨after, Value.at?_of_replace? hw, hn⟩
  have grown (hc : Table.contains key entries = false) (entry : Value RecordType) :
      (Table.keys (entries ++ [(key, entry)])).Nodup := by
    have ha : key ∉ Table.keys entries := by
      rw [← Table.get?_eq_none_iff]
      simpa [Table.contains] using hc
    have hk : Table.keys (entries ++ [(key, entry)]) = Table.keys entries ++ [key] := by
      simp [Table.keys]
    rw [hk]
    exact List.nodup_append.mpr ⟨hd, by simp, by grind⟩
  by_cases hi : e.progress.op = .insert
  · cases hc : Table.contains key entries with
    | true => exact still (h.keeps hi hc).2
    | false =>
      have hins := h.inserts hi hc
      cases hins with
      | made filled told hw => exact written hw (grown hc _)
      | refused blank sort unmade root => exact still root
      | left given sort unmade hw => exact written hw (grown hc _)
  · cases hc : Table.contains key entries with
    | false => exact still (by rw [h.missing hi hc])
    | true =>
      by_cases hr : e.progress.op = .remove
      · refine written (h.removes hr hc).2 ?_
        rw [Table.keys_erase]
        exact hd.erase key
      · obtain ⟨entry, hw⟩ := h.changes hi hr hc
        refine written hw ?_
        rw [Table.keys_set]
        exact hd

end Editing

end FieldPatch
