import FieldPatch.Proofs.Edit.Entry

namespace FieldPatch.Editing

variable {tags : TagTable} {e : Editing} {fault : Fault}

/-- An insertion of a value that is given, where there is room for an entry. -/
structure Adds (d : Destination) (e : Editing) : Prop where
  asked : e.progress.op = .insert
  given : Text.allBlank e.progress.value = false
  takes : d.place.takesEntry = true

/-- The state in which an edit of a destination is refused. -/
inductive Refuses (d : Destination) (e : Editing) (fault : Fault) (done : Editing) : Prop
  | still (calm : ¬ Adds d e) (root : done.root = e.root) (contexts : done.contexts = e.contexts)
  | element {items : List (Value RecordType)} {index : Option Nat} {kind : Kind RecordType}
      (adds : Adds d e) (place : d.place = .element items index kind)
      (sort : fault.faultClass ≠ .structural)
      (written : e.root.replace? d.container (.list
        (items.insertIdx (Place.position items index) kind.placeholder)) = some done.root)
      (contexts : done.contexts =
        e.contexts.afterInsert d.container (Place.position items index))
  | entry {entries : List (Key × Value RecordType)} {key : Key} {kind : Kind RecordType}
      (adds : Adds d e) (place : d.place = .entry entries key kind)
      (sort : fault.faultClass ≠ .structural)
      (written : e.root.replace? d.container (.map (entries ++ [(key, kind.placeholder)])) =
        some done.root)
      (contexts : done.contexts = e.contexts)

theorem editSlot_of_error {slot : Location} {kind : Kind RecordType}
    (h : (editSlot tags slot kind e).1 = .error fault) :
    (editSlot tags slot kind e).2 = e.aim slot kind := by
  rw [editSlot] at h ⊢
  dsimp only at h ⊢
  split at h
  · rfl
  · split at h
    · rfl
    · contradiction

theorem Refuses.of_slot {d : Destination} {slot : Location} {kind : Kind RecordType}
    (hn : ¬ Adds d e) (h : (editSlot tags slot kind e).1 = .error fault) :
    Refuses d e fault (editSlot tags slot kind e).2 := by
  rw [editSlot_of_error h]
  exact .still hn rfl rfl

theorem editElement_refuses {d : Destination} {items : List (Value RecordType)}
    {index : Option Nat} {kind : Kind RecordType} (hp : d.place = .element items index kind)
    (hl : e.root.at? d.container = some (.list items))
    (h : (editElement tags d.container items index kind e).1 = .error fault) :
    Refuses d e fault (editElement tags d.container items index kind e).2 := by
  rw [editElement] at h ⊢
  split at h
  · rename_i ho
    have hi : Inserts tags d.container kind _ _ e (insertElement tags d.container items
        (Place.position items index) kind e) :=
      insertElement_inserts hl (Place.position_le items index)
    rw [← Place.position] at h ⊢
    generalize insertElement tags d.container items _ kind e = r at h hi
    cases hi with
    | made filled => contradiction
    | refused blank sort unmade root contexts =>
      exact .still (fun hf => Bool.noConfusion (blank.symm.trans hf.given)) root contexts
    | left given sort unmade written contexts =>
      cases h
      exact .element ⟨ho, given, by rw [hp]; rfl⟩ hp sort written contexts
  · rename_i hn
    exact .still (fun hf => hn hf.asked) rfl rfl
  · contradiction
  · rename_i hn hr
    exact .of_slot (fun hf => hn hf.asked) h

theorem editEntry_refuses {d : Destination} {entries : List (Key × Value RecordType)} {key : Key}
    {kind : Kind RecordType} (hp : d.place = .entry entries key kind)
    (hm : e.root.at? d.container = some (.map entries))
    (h : (editEntry tags d.container entries key kind e).1 = .error fault) :
    Refuses d e fault (editEntry tags d.container entries key kind e).2 := by
  rw [editEntry] at h ⊢
  split at h
  · contradiction
  · rename_i ho hc
    have ha : Table.get? key entries = none := by simpa [Table.contains] using hc
    have hi : Inserts tags d.container kind _ _ e
        (insertEntry tags d.container entries key kind e) := insertEntry_inserts hm ha
    generalize insertEntry tags d.container entries key kind e = r at h hi
    cases hi with
    | made filled => contradiction
    | refused blank sort unmade root contexts =>
      exact .still (fun hf => Bool.noConfusion (blank.symm.trans hf.given)) root contexts
    | left given sort unmade written contexts =>
      cases h
      have ht : d.place.takesEntry = true := by rw [hp, Place.takesEntry, hc]; rfl
      exact .entry ⟨ho, given, ht⟩ hp sort written contexts
  · rename_i hc hn
    exact .still (fun hf => hn hf.asked) rfl rfl
  · contradiction
  · rename_i hc hn hr
    exact .of_slot (fun hf => hn hf.asked) h

theorem editDestination_refuses {d : Destination} (hh : d.Held e.root)
    (h : (editDestination tags d e).1 = .error fault) :
    Refuses d e fault (editDestination tags d e).2 := by
  let arrived := { e with progress := { e.progress with atEnd := true } }
  obtain ⟨container, place⟩ := d
  have hf (h : Adds ⟨container, place⟩ arrived) : Adds ⟨container, place⟩ e :=
    ⟨h.asked, h.given, h.takes⟩
  have hr (done : Editing) (h : Refuses ⟨container, place⟩ arrived fault done) :
      Refuses ⟨container, place⟩ e fault done := by
    cases h with
    | still calm root contexts =>
      exact .still (fun h => calm ⟨h.asked, h.given, h.takes⟩) root contexts
    | element adds place sort written contexts =>
      exact .element (hf adds) place sort written contexts
    | entry adds place sort written contexts => exact .entry (hf adds) place sort written contexts
  refine hr _ ?_
  cases place with
  | field name kind => exact .of_slot (e := arrived) (fun h => nomatch h.takes) h
  | element items index kind => exact editElement_refuses (e := arrived) rfl hh h
  | entry entries key kind => exact editEntry_refuses (e := arrived) rfl hh h

end FieldPatch.Editing
