import FieldPatch.Edit.Run

namespace FieldPatch.Editing

/-- The states agree in the config and in what is asked of the slot. -/
structure Alike (e e' : Editing) : Prop where
  root : e'.root = e.root
  op : e'.progress.op = e.progress.op
  value : e'.progress.value = e.progress.value
  segment : e'.progress.segment = e.progress.segment

/-- The results agree in how the edit ends and in the config. -/
structure SameEnd {α : Type} (r r' : α × Editing) : Prop where
  ending : r'.1 = r.1
  root : r'.2.root = r.2.root

variable {tags : TagTable} {e e' : Editing}

theorem Alike.amend (h : e.Alike e') (location : Location) (value : Value RecordType) :
    (e.amend location value).Alike (e'.amend location value) := by
  refine ⟨?_, h.op, h.value, h.segment⟩
  simp only [Editing.amend]
  rw [h.root]

theorem Alike.perform (h : e.Alike e') (location : Location) (kind : Kind RecordType)
    (edit : SlotEdit) : SameEnd (e.perform location kind edit) (e'.perform location kind edit) := by
  refine ⟨by cases edit <;> rfl, ?_⟩
  cases edit with
  | assign value opens detail =>
    have hr := (h.amend location value).root
    cases opens with
    | false => simpa [Editing.perform] using hr
    | true => simpa [Editing.perform] using hr
  | amend value detail => exact (h.amend location value).root
  | keep detail => exact h.root
  | mark => simpa [Editing.perform] using h.root

theorem Alike.editSlot (h : e.Alike e') (location : Location) (kind : Kind RecordType) :
    SameEnd (editSlot tags location kind e) (editSlot tags location kind e') := by
  have ha : (e.aim location kind).Alike (e'.aim location kind) :=
    ⟨h.root, h.op, h.value, h.segment⟩
  simp only [Editing.editSlot]
  simp only [ha.root, ha.op, ha.value, ha.segment]
  split
  · exact ⟨rfl, h.root⟩
  · split
    · exact ⟨rfl, h.root⟩
    · obtain ⟨he, hr⟩ := ha.perform location kind _
      exact ⟨congrArg Except.ok he, hr⟩

theorem Alike.fill (h : e.Alike e') (location : Location) (kind : Kind RecordType) :
    SameEnd (fill tags location kind e) (fill tags location kind e') := by
  have ho : fillOperation kind e'.progress.value = fillOperation kind e.progress.value := by
    rw [h.value]
  simp only [Editing.fill]
  by_cases hb : Text.allBlank e.progress.value = true
  · have hb' : Text.allBlank e'.progress.value = true := by rwa [h.value]
    simp only [if_pos hb, if_pos hb']
    refine ⟨rfl, ?_⟩
    dsimp only
    split
    · simpa using h.root
    · exact h.root
  · have hb' : ¬ Text.allBlank e'.progress.value = true := by rwa [h.value]
    simp only [if_neg hb, if_neg hb']
    have ha : Alike { e with progress.op := fillOperation kind e.progress.value }
        { e' with progress.op := fillOperation kind e'.progress.value } :=
      ⟨h.root, ho, h.value, h.segment⟩
    exact ha.editSlot location kind

theorem Alike.makeElement (h : e.Alike e') (list : Location) (items : List (Value RecordType))
    (index : Nat) (kind : Kind RecordType) (entry : Value RecordType) :
    (e.makeElement list items index kind entry).Alike
      (e'.makeElement list items index kind entry) := by
  have ha := h.amend list (.list (items.insertIdx index entry))
  exact ⟨ha.root, ha.op, ha.value, ha.segment⟩

theorem Alike.insertElement (h : e.Alike e') (list : Location) (items : List (Value RecordType))
    (index : Nat) (kind : Kind RecordType) :
    SameEnd (insertElement tags list items index kind e)
      (insertElement tags list items index kind e') := by
  simp only [Editing.insertElement]
  rw [h.value]
  split
  · exact ⟨rfl, h.root⟩
  · exact (h.makeElement list items index kind _).fill _ kind

theorem Alike.editElement (h : e.Alike e') (list : Location) (items : List (Value RecordType))
    (index : Option Nat) (kind : Kind RecordType) :
    SameEnd (editElement tags list items index kind e)
      (editElement tags list items index kind e') := by
  simp only [Editing.editElement]
  simp only [h.op, h.segment]
  split
  · exact h.insertElement list items _ kind
  · exact ⟨rfl, h.root⟩
  · refine ⟨rfl, ?_⟩
    simpa using (h.amend list _).root
  · exact h.editSlot _ kind

theorem Alike.makeEntry (h : e.Alike e') (map : Location)
    (entries : List (Key × Value RecordType)) (key : Key) (entry : Value RecordType) :
    (e.makeEntry map entries key entry).Alike (e'.makeEntry map entries key entry) := by
  have ha := h.amend map (.map (entries ++ [(key, entry)]))
  exact ⟨ha.root, ha.op, ha.value, ha.segment⟩

theorem Alike.insertEntry (h : e.Alike e') (map : Location)
    (entries : List (Key × Value RecordType)) (key : Key) (kind : Kind RecordType) :
    SameEnd (insertEntry tags map entries key kind e)
      (insertEntry tags map entries key kind e') := by
  simp only [Editing.insertEntry]
  rw [h.value]
  split
  · exact ⟨rfl, h.root⟩
  · exact (h.makeEntry map entries key _).fill _ kind

theorem Alike.editEntry (h : e.Alike e') (map : Location)
    (entries : List (Key × Value RecordType)) (key : Key) (kind : Kind RecordType) :
    SameEnd (editEntry tags map entries key kind e) (editEntry tags map entries key kind e') := by
  simp only [Editing.editEntry]
  simp only [h.op]
  split
  · exact ⟨rfl, h.root⟩
  · exact h.insertEntry map entries key kind
  · exact ⟨rfl, h.root⟩
  · refine ⟨rfl, ?_⟩
    simpa using (h.amend map _).root
  · exact h.editSlot _ kind

theorem Alike.editDestination (h : e.Alike e') (d : Destination) :
    SameEnd (editDestination tags d e) (editDestination tags d e') := by
  have ha : Alike { e with progress := { e.progress with atEnd := true } }
      { e' with progress := { e'.progress with atEnd := true } } :=
    ⟨h.root, h.op, h.value, h.segment⟩
  obtain ⟨container, place⟩ := d
  cases place with
  | field name kind => exact ha.editSlot _ kind
  | element items index kind => exact ha.editElement container items index kind
  | entry entries key kind => exact ha.editEntry container entries key kind

end FieldPatch.Editing
