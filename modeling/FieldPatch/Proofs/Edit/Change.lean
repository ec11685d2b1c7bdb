import FieldPatch.Proofs.Edit.Account

namespace FieldPatch

namespace Place

/-- The position that an index stands for: the end of the list, if there is no such element. -/
def position (items : List (Value RecordType)) (index : Option Nat) : Nat :=
  (index.filter (· < items.length)).getD items.length

theorem lt_of_inside {items : List (Value RecordType)} {index : Option Nat} {i : Nat}
    (h : index.filter (· < items.length) = some i) : i < items.length := by
  simpa using (Option.filter_eq_some_iff.mp h).2

theorem position_le (items : List (Value RecordType)) (index : Option Nat) :
    position items index ≤ items.length := by
  rw [position]
  cases h : index.filter (· < items.length) with
  | none => exact Nat.le_refl _
  | some i => exact Nat.le_of_lt (lt_of_inside h)

theorem position_of_lt {items : List (Value RecordType)} {i : Nat} (h : i < items.length) :
    position items (some i) = i := by
  rw [position, Option.filter_some, if_pos (by simpa using h), Option.getD_some]

theorem position_of_le {items : List (Value RecordType)} {i : Nat} (h : items.length ≤ i) :
    position items (some i) = items.length := by
  rw [position, Option.filter_some, if_neg (by simpa using h), Option.getD_none]

/-- The step from the container to the slot at the place. -/
def lastStep : Place → Step
  | field name _ => .field name
  | element items index _ => .index (position items index)
  | entry _ key _ => .key key

/-- Insertions and removals change the container itself, unless it is a record. -/
def resizes (op : Operation) : Place → Bool
  | field _ _ => false
  | element _ _ _ | entry _ _ _ => op = .insert || op = .remove

end Place

namespace Destination

def slot (d : Destination) : Location := d.container.child d.place.lastStep

/-- The place that an operation changes at a destination: the list or map itself, or the slot. -/
def changes (op : Operation) (d : Destination) : Location :=
  if d.place.resizes op then d.container else d.slot

/-- Where a location is after an operation with a value at a destination. Only an element that comes
into a list or leaves it moves anything. -/
def rebase (op : Operation) (value : String) (d : Destination) (l : Location) : Location :=
  match op, d.place with
  | .insert, .element items index kind =>
    match Editing.newEntry kind value with
    | .ok _ => d.container.raise (Place.position items index) l
    | .error _ => l
  | .remove, .element items index _ =>
    match index.filter (· < items.length) with
    | some i => d.container.lower i l
    | none => l
  | _, _ => l

/-- The container at the destination is there, with the contents that the place has. -/
def Held (root : Value RecordType) (d : Destination) : Prop :=
  match d.place with
  | .field _ _ => (root.at? d.slot).isSome = true
  | .element items _ _ => root.at? d.container = some (.list items)
  | .entry entries _ _ => root.at? d.container = some (.map entries)

/-- What an edit of a destination makes of a config, with the contexts that it takes away. An entry
is made even if the value meant for it is not read in the end. -/
inductive Change (op : Operation) (value : String) (d : Destination) (root : Value RecordType) :
    Loss → Value RecordType → Prop
  | idle (still : ∀ l, d.rebase op value l = l) : Change op value d root .none root
  | slot {loss : Loss} {changed : Value RecordType} (own : d.place.resizes op = false)
      (change : root.SlotChange d.slot loss changed) : Change op value d root loss changed
  | makeElement {items : List (Value RecordType)} {index : Option Nat} {kind : Kind RecordType}
      {first entry changed : Value RecordType} (place : d.place = .element items index kind)
      (asked : op = .insert) (made : Editing.newEntry kind value = .ok first)
      (held : root.at? d.container = some (.list items))
      (written : root.replace? d.container
        (.list (items.insertIdx (Place.position items index) entry)) = some changed) :
      Change op value d root .none changed
  | dropElement {items : List (Value RecordType)} {index : Option Nat} {i : Nat}
      {kind : Kind RecordType} {changed : Value RecordType}
      (place : d.place = .element items index kind)
      (inside : index.filter (· < items.length) = some i) (asked : op = .remove)
      (held : root.at? d.container = some (.list items))
      (written : root.replace? d.container (.list (items.eraseIdx i)) = some changed) :
      Change op value d root .whole changed
  | makeEntry {entries : List (Key × Value RecordType)} {key : Key} {kind : Kind RecordType}
      {loss : Loss} {entry changed : Value RecordType} (place : d.place = .entry entries key kind)
      (asked : op = .insert) (absent : Table.contains key entries = false) (part : loss ≠ .whole)
      (held : root.at? d.container = some (.map entries))
      (written : root.replace? d.container (.map (entries ++ [(key, entry)])) = some changed) :
      Change op value d root loss changed
  | dropEntry {entries : List (Key × Value RecordType)} {key : Key} {kind : Kind RecordType}
      {changed : Value RecordType} (place : d.place = .entry entries key kind)
      (asked : op = .remove) (held : root.at? d.container = some (.map entries))
      (written : root.replace? d.container (.map (Table.erase key entries)) = some changed) :
      Change op value d root .whole changed

variable {op : Operation} {value : String} {d : Destination}

theorem slot_of_element {items : List (Value RecordType)} {index : Option Nat} {i : Nat}
    {kind : Kind RecordType} (h : d.place = .element items index kind)
    (hi : index.filter (· < items.length) = some i) : d.slot = d.container.child (.index i) := by
  rw [slot, h, Place.lastStep, Place.position, hi, Option.getD_some]

theorem slot_of_entry {entries : List (Key × Value RecordType)} {key : Key}
    {kind : Kind RecordType} (h : d.place = .entry entries key kind) :
    d.slot = d.container.child (.key key) := by
  rw [slot, h, Place.lastStep]

theorem rebase_of_own (h : d.place.resizes op = false) (value : String) (l : Location) :
    d.rebase op value l = l := by
  obtain ⟨container, place⟩ := d
  cases place with
  | field name kind => cases op <;> rfl
  | element items index kind => cases op <;> first | rfl | contradiction
  | entry entries key kind => cases op <;> rfl

theorem rebase_of_entry {entries : List (Key × Value RecordType)} {key : Key}
    {kind : Kind RecordType} (h : d.place = .entry entries key kind) (op : Operation)
    (value : String) (l : Location) : d.rebase op value l = l := by
  obtain ⟨container, place⟩ := d
  subst h
  cases op <;> rfl

theorem rebase_of_made {items : List (Value RecordType)} {index : Option Nat}
    {kind : Kind RecordType} {first : Value RecordType} (h : d.place = .element items index kind)
    (hm : Editing.newEntry kind value = .ok first) :
    d.rebase .insert value = d.container.raise (Place.position items index) := by
  obtain ⟨container, place⟩ := d
  subst h
  funext l
  simp only [rebase, hm]

theorem rebase_of_dropped {items : List (Value RecordType)} {index : Option Nat} {i : Nat}
    {kind : Kind RecordType} (h : d.place = .element items index kind)
    (hi : index.filter (· < items.length) = some i) (value : String) :
    d.rebase .remove value = d.container.lower i := by
  obtain ⟨container, place⟩ := d
  subst h
  funext l
  simp only [rebase, hi]

end Destination

namespace Editing

variable {tags : TagTable} {e : Editing} {d : Destination}

/-- The account of an edit of a destination. -/
def Accounts (d : Destination) (e : Editing) (r : Result) : Prop :=
  ∃ loss, d.Change e.progress.op e.progress.value e.root loss r.2.root ∧
    Site.Account ⟨d.slot, d.place.kind, d.rebase e.progress.op e.progress.value, e.contexts,
      e.chained⟩ loss (ending r) r.2

theorem Accounts.of_slot {r : Result} (own : d.place.resizes e.progress.op = false)
    (h : SlotAccount d.slot d.place.kind e r) : Accounts d e r := by
  obtain ⟨loss, hc, ha⟩ := h
  have hm : d.rebase e.progress.op e.progress.value = id :=
    funext (Destination.rebase_of_own own e.progress.value)
  exact ⟨loss, .slot own hc, hm ▸ ha⟩

theorem Accounts.of_idle {r : Result}
    (still : ∀ l, d.rebase e.progress.op e.progress.value l = l) (hr : r.2.root = e.root)
    (hc : r.2.contexts = e.contexts) (ha : (ending r).isAttempt = true) (hn : ending r ≠ .removed)
    (ho : r.2.progress.opens (ending r) = false) : Accounts d e r := by
  refine ⟨.none, hr ▸ .idle still, .of_closed ha ⟨fun h => absurd h hn, fun h => by cases h⟩ ?_ ho⟩
  rw [Site.kept_none, ContextStack.relocate_of_still still, hc]

/-- What is written into a new element could have been inserted at once. -/
theorem insertIdx_written {root middle changed entry : Value RecordType} {list : Location}
    {items : List (Value RecordType)} {i : Nat} {loss : Loss}
    (h : root.replace? list (.list (items.insertIdx i entry)) = some middle)
    (hc : middle.SlotChange (list.child (.index i)) loss changed) :
    ∃ entry, root.replace? list (.list (items.insertIdx i entry)) = some changed := by
  have hw (value : Value RecordType)
      (hr : middle.replace? (list.child (.index i)) value = some changed) :
      ∃ entry, root.replace? list (.list (items.insertIdx i entry)) = some changed := by
    have hw := Value.replace?_setChild h hr
    rw [Value.setChild, set_insertIdx_self] at hw
    exact ⟨value, hw⟩
  cases hc with
  | idle => exact ⟨entry, h⟩
  | assign written => exact hw _ written
  | amend held leaf written => exact hw _ written

theorem makeEntry_written {root middle changed entry : Value RecordType} {map : Location}
    {entries : List (Key × Value RecordType)} {key : Key} {loss : Loss}
    (ha : Table.contains key entries = false)
    (h : root.replace? map (.map (entries ++ [(key, entry)])) = some middle)
    (hc : middle.SlotChange (map.child (.key key)) loss changed) :
    ∃ entry, root.replace? map (.map (entries ++ [(key, entry)])) = some changed := by
  have hw (value : Value RecordType)
      (hr : middle.replace? (map.child (.key key)) value = some changed) :
      ∃ entry, root.replace? map (.map (entries ++ [(key, entry)])) = some changed := by
    have hw := Value.replace?_setChild h hr
    rw [Value.setChild, Table.set_append_self (by simpa [Table.contains] using ha)] at hw
    exact ⟨value, hw⟩
  cases hc with
  | idle => exact ⟨entry, h⟩
  | assign written => exact hw _ written
  | amend held leaf written => exact hw _ written

theorem insertElement_account {items : List (Value RecordType)} {index : Option Nat}
    {kind : Kind RecordType} (hp : d.place = .element items index kind)
    (ho : e.progress.op = .insert) (hl : e.root.at? d.container = some (.list items)) :
    Accounts d e (insertElement tags d.container items (Place.position items index) kind e) := by
  have hs : d.slot = d.container.child (.index (Place.position items index)) := by
    rw [Destination.slot, hp]
    rfl
  have hi := Place.position_le items index
  rw [insertElement]
  split
  · rename_i fault hn
    refine .of_idle (fun l => ?_) rfl rfl rfl (by simp [ending]) rfl
    simp only [Destination.rebase, ho, hp, hn]
  · rename_i first hn
    have hw := root_amend_written hl (.list (items.insertIdx (Place.position items index) first))
    let made := e.makeElement d.container items (Place.position items index) kind first
    have hf : made.root.at? (d.container.child (.index (Place.position items index))) =
        some first := by
      refine (Value.at?_replace?_append hw [.index (Place.position items index)]).trans ?_
      simp [Value.at?, Value.child?, List.getElem?_insertIdx, hi]
    have hs' : SlotAccount _ kind made (fill tags _ kind made) := fill_account hf
    obtain ⟨loss, hc, ha⟩ := hs'
    obtain ⟨entry, hw⟩ := insertIdx_written hw hc
    have hm : d.rebase e.progress.op e.progress.value = _ := ho ▸ Destination.rebase_of_made hp hn
    refine ⟨.none, .makeElement hp ho hn hl hw, ha.of_kept ?_ ?_ hs (by simp [hp, Place.kind]) rfl⟩
    · exact ⟨fun h => (by cases h), fun h => absurd h hc.partial⟩
    · rw [Site.kept_none, hm, Site.kept, ContextStack.relocate_id]
      refine (ContextStack.keepUntil_eq_self fun c hc => ?_).symm
      obtain ⟨c, -, rfl⟩ := List.mem_map.mp hc
      rw [Bool.eq_false_iff]
      intro ht
      exact Location.not_startsWith_raise _ _ _ (Loss.startsWith_of_takes ht)

theorem dropElement_account {items : List (Value RecordType)} {index : Option Nat} {i : Nat}
    {kind : Kind RecordType} (hp : d.place = .element items index kind)
    (hi : index.filter (· < items.length) = some i) (ho : e.progress.op = .remove)
    (hl : e.root.at? d.container = some (.list items)) :
    Accounts d e (.ok .removed, e.dropElement d.container items i) := by
  have hs := Destination.slot_of_element hp hi
  have hw := root_amend_written hl (.list (items.eraseIdx i))
  refine ⟨.whole, .dropElement hp hi ho hl (by simpa using hw),
    .of_closed rfl (by simp [ending]) ?_ rfl⟩
  rw [contexts_dropElement, ContextStack.afterRemove_eq, ContextStack.discardWithin_snd, Site.kept]
  simp only [ho, Destination.rebase_of_dropped hp hi, hs]
  rfl

theorem editElement_account {items : List (Value RecordType)} {index : Option Nat}
    {kind : Kind RecordType} (hp : d.place = .element items index kind)
    (hl : e.root.at? d.container = some (.list items)) :
    Accounts d e (editElement tags d.container items index kind e) := by
  unfold editElement
  dsimp only
  split
  · rename_i ho
    exact insertElement_account hp ho hl
  · rename_i hi hn
    refine .of_idle (fun l => ?_) rfl rfl rfl (by simp [ending]) rfl
    cases hop : e.progress.op with
    | insert => exact absurd hop hn
    | remove => simp only [Destination.rebase, hp, hi]
    | _ => rfl
  · rename_i i ho hi
    exact dropElement_account hp hi ho hl
  · rename_i i hi hn hr
    have hs := Destination.slot_of_element hp hi
    have hlt := Place.lt_of_inside hi
    have hv : e.root.at? (d.container.child (.index i)) = some items[i] := by
      rw [Location.child, Value.at?_append, hl]
      simp [Value.at?, Value.child?, hlt]
    have ha : SlotAccount _ kind e (editSlot tags _ kind e) := editSlot_account hv
    refine .of_slot ?_ (by simpa only [hs, hp, Place.kind] using ha)
    have hi' : e.progress.op ≠ .insert := hn
    have hr' : e.progress.op ≠ .remove := hr
    rw [hp]
    simp [Place.resizes, hi', hr']

theorem insertEntry_account {entries : List (Key × Value RecordType)} {key : Key}
    {kind : Kind RecordType} (hp : d.place = .entry entries key kind)
    (ho : e.progress.op = .insert) (hn : Table.contains key entries = false)
    (hm : e.root.at? d.container = some (.map entries)) :
    Accounts d e (insertEntry tags d.container entries key kind e) := by
  have hs := Destination.slot_of_entry hp
  have still : d.rebase e.progress.op e.progress.value = id :=
    funext (Destination.rebase_of_entry hp _ _)
  rw [insertEntry]
  split
  · exact .of_idle (congrFun still) rfl rfl rfl (by simp [ending]) rfl
  · rename_i first hf
    have hw := root_amend_written hm (.map (entries ++ [(key, first)]))
    let made := e.makeEntry d.container entries key first
    have hv : made.root.at? (d.container.child (.key key)) = some first := by
      refine (Value.at?_replace?_append hw [.key key]).trans ?_
      simp [Value.at?, Value.child?, Table.get?_append_self (by simpa [Table.contains] using hn)]
    have ha : SlotAccount _ kind made (fill tags _ kind made) := fill_account hv
    obtain ⟨loss, hc, ha⟩ := ha
    obtain ⟨entry, hw⟩ := makeEntry_written hn hw hc
    refine ⟨loss, .makeEntry hp ho hn hc.partial hm hw, ha.of_kept .rfl ?_ hs ?_ rfl⟩
    · simp only [Site.kept, still, hs]
      rfl
    · simp [hp, Place.kind]

theorem dropEntry_account {entries : List (Key × Value RecordType)} {key : Key}
    {kind : Kind RecordType} (hp : d.place = .entry entries key kind)
    (ho : e.progress.op = .remove) (hm : e.root.at? d.container = some (.map entries)) :
    Accounts d e (.ok .removed, e.dropEntry d.container entries key) := by
  have hs := Destination.slot_of_entry hp
  have still : d.rebase e.progress.op e.progress.value = id :=
    funext (Destination.rebase_of_entry hp _ _)
  have hw := root_amend_written hm (.map (Table.erase key entries))
  refine ⟨.whole, .dropEntry hp ho hm (by simpa using hw), .of_closed rfl (by simp [ending]) ?_ rfl⟩
  simp only [contexts_dropEntry, ContextStack.discardWithin_snd, Site.kept, still, hs,
    ContextStack.relocate_id]
  rfl

theorem editEntry_account {entries : List (Key × Value RecordType)} {key : Key}
    {kind : Kind RecordType} (hp : d.place = .entry entries key kind)
    (hm : e.root.at? d.container = some (.map entries)) :
    Accounts d e (editEntry tags d.container entries key kind e) := by
  have still := Destination.rebase_of_entry hp e.progress.op e.progress.value
  rw [editEntry]
  split
  · exact .of_idle still rfl rfl rfl (by simp [ending]) rfl
  · rename_i ho hn
    exact insertEntry_account hp ho hn hm
  · exact .of_idle still rfl rfl rfl (by simp [ending]) rfl
  · rename_i ho _
    exact dropEntry_account hp ho hm
  · rename_i hc hn hr
    have hs := Destination.slot_of_entry hp
    obtain ⟨value, hg⟩ := Option.isSome_iff_exists.mp hc
    have hv : e.root.at? (d.container.child (.key key)) = some value := by
      rw [Location.child, Value.at?_append, hm]
      simp [Value.at?, Value.child?, hg]
    have ha : SlotAccount _ kind e (editSlot tags _ kind e) := editSlot_account hv
    refine .of_slot ?_ (by simpa only [hs, hp, Place.kind] using ha)
    have hi' : e.progress.op ≠ .insert := hn
    have hr' : e.progress.op ≠ .remove := hr
    rw [hp]
    simp [Place.resizes, hi', hr']

/-- Every edit of a destination that is there is accounted for. -/
theorem editDestination_account (h : d.Held e.root) : Accounts d e (editDestination tags d e) := by
  obtain ⟨container, place⟩ := d
  let arrived := { e with progress := { e.progress with atEnd := true } }
  cases place with
  | field name kind =>
    obtain ⟨current, hv⟩ := Option.isSome_iff_exists.mp h
    have ha : SlotAccount _ kind arrived (editSlot tags _ kind arrived) := editSlot_account hv
    exact Accounts.of_slot (e := arrived) rfl ha
  | element items index kind => exact editElement_account (e := arrived) rfl h
  | entry entries key kind => exact editEntry_account (e := arrived) rfl h

end Editing

end FieldPatch
