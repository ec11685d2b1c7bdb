import FieldPatch.Proofs.Edit.Effect
import FieldPatch.Proofs.Edit.Underway

namespace FieldPatch

/-- A place that holds a slot is one for every operation. -/
theorem Destination.admits_of_held {root : Value RecordType} {d : Destination} (hh : d.Held root)
    (hs : (root.at? d.slot).isSome = true) (op : Operation) : d.place.Admits op := by
  obtain ⟨container, place⟩ := d
  cases place with
  | element items index kind =>
    refine .inr ?_
    cases hf : index.filter (· < items.length) with
    | some i => rfl
    | none =>
      have hl : root.at? container = some (.list items) := hh
      have hp : Place.position items index = items.length := by
        rw [Place.position, hf, Option.getD_none]
      have hs : (root.at? (container.child (.index (Place.position items index)))).isSome = true :=
        hs
      rw [Value.at?_child hl, hp] at hs
      simp [Value.child?] at hs
  | _ => trivial

namespace Editing

/-- Both stand at the same segment of as many, and found the same fault so far. -/
structure SamePoint (p q : Progress) : Prop where
  index : q.segmentIndex = p.segmentIndex
  size : q.segmentCount = p.segmentCount
  sound : q.faulted = p.faulted
  atEnd : q.atEnd = p.atEnd

/-- An edit of a destination ends at the slot there: the slot was there, or the edit has made it;
and it is there in the end, unless the edit has taken it away. -/
structure Landed (d : Destination) (e : Editing) (r : Result) : Prop where
  admits : d.place.Admits e.progress.op
  point : SamePoint e.progress r.2.progress
  location : r.2.progress.location = d.slot
  kind : ∀ fault, r.1 = .error fault → r.2.progress.targetKind = some d.place.kind
  before : r.1 = .ok .removed ∨ r.1 = .ok .noOp ∨ r.1 = .ok .contextSet →
    (e.root.at? d.slot).isSome = true
  after : r.1 ≠ .ok .removed → (r.2.root.at? d.slot).isSome = true

section Slots

variable (tags : TagTable) (slot : Location) (kind : Kind RecordType) (e : Editing)

@[simp] theorem progress_perform (edit : SlotEdit) :
    (e.perform slot kind edit).2.progress = e.progress := by
  cases edit with
  | assign value opens detail =>
    cases opens with
    | false => exact progress_assign e slot value
    | true => exact (progress_setContext _ slot kind).trans (progress_assign e slot value)
  | amend value detail => rfl
  | keep detail => rfl
  | mark => exact progress_setContext e slot kind

theorem progress_editSlot :
    (editSlot tags slot kind e).2.progress = (e.aim slot kind).progress := by
  rw [editSlot]
  dsimp only
  split
  · rfl
  · split
    · rfl
    · exact progress_perform slot kind (e.aim slot kind) _

theorem progress_fill :
    ∃ op, (fill tags slot kind e).2.progress = { (e.aim slot kind).progress with op } := by
  rw [fill]
  dsimp only
  split
  · refine ⟨e.progress.op, ?_⟩
    split
    · exact progress_setContext (e.aim slot kind) slot kind
    · rfl
  · exact ⟨_, progress_editSlot tags slot kind _⟩

variable {tags slot kind e} {current first : Value RecordType}

theorem held_of_editSlot (h : e.root.at? slot = some current) :
    ((editSlot tags slot kind e).2.root.at? slot).isSome = true := by
  have ha : Affects slot _ e (editSlot tags slot kind e) := editSlot_affects tags h
  rw [Value.at?_of_replace? ha.written]
  rfl

theorem held_of_fill (h : e.root.at? slot = some current) :
    ((fill tags slot kind e).2.root.at? slot).isSome = true := by
  have hs : (e.root.at? slot).isSome = true := by rw [h]; rfl
  rw [fill]
  dsimp only
  split
  · split
    · rw [root_setContext, root_aim]
      exact hs
    · exact hs
  · exact held_of_editSlot (e := { e with progress := { e.progress with
      op := fillOperation kind e.progress.value } }) h

/-- An entry that was made is filled or left as it is, if not refused. -/
theorem fill_told (h : e.root.at? slot = some first)
    (hn : newEntry kind e.progress.value = .ok first) {outcome : Outcome}
    (ho : (fill tags slot kind e).1 = .ok outcome) :
    outcome = .applied ∨ outcome = .incomplete := by
  rw [fill] at ho
  dsimp only at ho
  split at ho
  · cases ho
    exact .inr rfl
  · rename_i hb
    let asked : Editing := { e with
      progress := { e.progress with op := fillOperation kind e.progress.value } }
    have hs : editSlot tags slot kind asked = _ := editSlot_of_held h
    have hd : SlotEdit.Fills tags e.progress.value kind (SlotEdit.decide tags
        ⟨asked.progress.op, asked.progress.value, asked.progress.segment⟩ kind first) :=
      SlotEdit.decide_fills asked.progress.segment (Bool.eq_false_iff.mpr hb) hn
    rw [hs] at ho
    generalize SlotEdit.decide tags _ kind first = edit at hd ho
    cases hd with
    | assign made =>
      cases ho
      exact .inl rfl
    | refuse sort unmade => contradiction

end Slots

variable {tags : TagTable} {d : Destination} {e : Editing}

theorem Landed.of_slot (hh : d.Held e.root) (hs : (e.root.at? d.slot).isSome = true) :
    Landed d e (editSlot tags d.slot d.place.kind e) := by
  obtain ⟨current, hv⟩ := Option.isSome_iff_exists.mp hs
  have hp := progress_editSlot tags d.slot d.place.kind e
  exact ⟨Destination.admits_of_held hh hs _, by rw [hp]; exact ⟨rfl, rfl, rfl, rfl⟩,
    by rw [hp]; rfl, fun _ _ => by rw [hp]; rfl, fun _ => hs, fun _ => held_of_editSlot hv⟩

theorem Landed.of_fill {made : Editing} {first : Value RecordType} (ho : e.progress.op = .insert)
    (hp : made.progress = e.progress) (hn : newEntry d.place.kind e.progress.value = .ok first)
    (hv : made.root.at? d.slot = some first) :
    Landed d e (fill tags d.slot d.place.kind made) := by
  obtain ⟨op, hf⟩ := progress_fill tags d.slot d.place.kind made
  rw [← hp] at hn
  constructor
  case admits =>
    rw [ho]
    cases d.place with
    | element items index kind => exact .inl rfl
    | _ => trivial
  case point =>
    rw [hf, ← hp]
    exact ⟨rfl, rfl, rfl, rfl⟩
  case location => rw [hf]; rfl
  case kind => exact fun _ _ => by rw [hf]; rfl
  case before =>
    rintro (hr | hr | hr)
    · exact absurd (fill_told hv hn hr) (by simp)
    · exact absurd (fill_told hv hn hr) (by simp)
    · exact absurd (fill_told hv hn hr) (by simp)
  case after => exact fun _ => held_of_fill hv

/-- An edit that takes its slot away, or leaves it as it is, shows it. -/
theorem Landed.of_reach {outcome : Outcome} {done : Editing} (hh : d.Held e.root)
    (hs : (e.root.at? d.slot).isSome = true) (hp : done.progress = (e.reach d.slot).progress)
    (ha : outcome ≠ .removed → (done.root.at? d.slot).isSome = true) :
    Landed d e (.ok outcome, done) :=
  ⟨Destination.admits_of_held hh hs _, by rw [hp]; exact ⟨rfl, rfl, rfl, rfl⟩, by rw [hp]; rfl,
    fun _ h => by contradiction, fun _ => hs, fun hn => ha fun ho => hn (ho ▸ rfl)⟩

/-- An edit of a destination lands at the slot there, or is refused before it comes to that. -/
inductive Settles (d : Destination) (e : Editing) (r : Result) : Prop
  | landed (landed : Landed d e r)
  | short {fault : Fault} (refused : r.1 = .error fault) (progress : r.2.progress = e.progress)

theorem insertElement_settles {items : List (Value RecordType)} {index : Option Nat}
    {kind : Kind RecordType} (hp : d.place = .element items index kind)
    (ho : e.progress.op = .insert) (hl : e.root.at? d.container = some (.list items)) :
    Settles d e (insertElement tags d.container items (Place.position items index) kind e) := by
  have hs : d.slot = d.container.child (.index (Place.position items index)) := by
    rw [Destination.slot, hp]
    rfl
  have hk : d.place.kind = kind := by rw [hp]; rfl
  rw [insertElement]
  split
  · exact .short rfl rfl
  · rename_i first hn
    have hi := Place.position_le items index
    have hw := root_amend_written hl (.list (items.insertIdx (Place.position items index) first))
    rw [← hk] at hn
    rw [← hs, ← hk]
    refine .landed (.of_fill ho rfl hn ?_)
    rw [hs]
    refine (Value.at?_replace?_append hw [.index (Place.position items index)]).trans ?_
    simp [Value.at?, Value.child?, List.getElem?_insertIdx, hi]

theorem editElement_settles {items : List (Value RecordType)} {index : Option Nat}
    {kind : Kind RecordType} (hp : d.place = .element items index kind)
    (hl : e.root.at? d.container = some (.list items)) :
    Settles d e (editElement tags d.container items index kind e) := by
  have hh : d.Held e.root := by rw [Destination.Held, hp]; exact hl
  have present {i : Nat} (hi : index.filter (· < items.length) = some i) :
      d.slot = d.container.child (.index i) ∧ (e.root.at? d.slot).isSome = true := by
    have hs := Destination.slot_of_element hp hi
    refine ⟨hs, ?_⟩
    rw [hs, Value.at?_child hl]
    simpa [Value.child?] using Place.lt_of_inside hi
  unfold editElement
  dsimp only
  split
  · rename_i ho
    exact insertElement_settles hp ho hl
  · exact .short rfl rfl
  · rename_i i ho hi
    obtain ⟨hs, hv⟩ := present hi
    refine .landed (.of_reach hh hv ?_ fun hn => absurd rfl hn)
    rw [dropElement, progress_traceLost, hs]
    rfl
  · rename_i i hi hn hr
    obtain ⟨hs, hv⟩ := present hi
    have ha : Landed d e (editSlot tags d.slot d.place.kind e) := .of_slot hh hv
    rw [hs, show d.place.kind = kind by rw [hp]; rfl] at ha
    exact .landed ha

theorem insertEntry_settles {entries : List (Key × Value RecordType)} {key : Key}
    {kind : Kind RecordType} (hp : d.place = .entry entries key kind)
    (ho : e.progress.op = .insert) (ha : Table.contains key entries = false)
    (hm : e.root.at? d.container = some (.map entries)) :
    Settles d e (insertEntry tags d.container entries key kind e) := by
  have hs := Destination.slot_of_entry hp
  have hk : d.place.kind = kind := by rw [hp]; rfl
  rw [insertEntry]
  split
  · exact .short rfl rfl
  · rename_i first hn
    have hw := root_amend_written hm (.map (entries ++ [(key, first)]))
    rw [← hk] at hn
    rw [← hs, ← hk]
    refine .landed (.of_fill ho rfl hn ?_)
    rw [hs]
    refine (Value.at?_replace?_append hw [.key key]).trans ?_
    simp [Value.at?, Value.child?, Table.get?_append_self (by simpa [Table.contains] using ha)]

theorem editEntry_settles {entries : List (Key × Value RecordType)} {key : Key}
    {kind : Kind RecordType} (hp : d.place = .entry entries key kind)
    (hm : e.root.at? d.container = some (.map entries)) :
    Settles d e (editEntry tags d.container entries key kind e) := by
  have hh : d.Held e.root := by rw [Destination.Held, hp]; exact hm
  have hs := Destination.slot_of_entry hp
  have present (hc : Table.contains key entries = true) : (e.root.at? d.slot).isSome = true := by
    rw [hs, Value.at?_child hm]
    exact hc
  rw [editEntry]
  split
  · rename_i hc
    exact .landed (.of_reach hh (present hc) (hs ▸ rfl) fun _ => present hc)
  · rename_i ho hc
    exact insertEntry_settles hp ho hc hm
  · exact .short rfl rfl
  · rename_i ho hc
    refine .landed (.of_reach hh (present hc) ?_ fun hn => absurd rfl hn)
    rw [dropEntry, progress_traceLost, hs]
    rfl
  · rename_i hc hn hr
    have ha : Landed d e (editSlot tags d.slot d.place.kind e) := .of_slot hh (present hc)
    rw [hs, show d.place.kind = kind by rw [hp]; rfl] at ha
    exact .landed ha

/-- The edit stands at the end of its path from here on. -/
def atEnd (e : Editing) : Editing := { e with progress := { e.progress with atEnd := true } }

theorem Underway.of_progress {path : FieldPath} {root : Value RecordType} {start : Cursor}
    {e' : Editing} (h : Underway path root start e) (hp : e'.progress = e.atEnd.progress) :
    Underway path root start e' := by
  refine ⟨?_, ?_, ?_, ?_, h.way.of_same ?_ ?_⟩
  · rw [hp]
    exact h.size
  · rw [hp]
    exact h.inside
  · rw [hp]
    exact h.kind
  · rw [hp]
    exact h.sound
  · rw [hp]
    rfl
  · rw [hp]
    rfl

theorem editDestination_settles (hh : d.Held e.root) :
    Settles d e.atEnd (editDestination tags d e) := by
  obtain ⟨container, place⟩ := d
  cases place with
  | field name kind => exact .landed (.of_slot (e := e.atEnd) hh hh)
  | element items index kind => exact editElement_settles (e := e.atEnd) rfl hh
  | entry entries key kind => exact editEntry_settles (e := e.atEnd) rfl hh

/-- A run ends as its attempt does, and reports the fault if there is one. -/
def concluded : Result → Outcome × Editing
  | (.ok outcome, done) => (outcome, done)
  | (.error fault, stopped) => (.faulted fault, stopped.refuse fault.message)

section Run

variable (settings : Settings) (tags : TagTable) {contexts : ContextStack} {request : Request}
  {root : Value RecordType} {path : FieldPath}

theorem run_of_lost {fault : Fault} (hp : FieldPath.parse request.path = .ok path)
    (hd : path.destination root contexts = .error fault) :
    run settings tags contexts request root = concluded (.error fault,
      (locate path (prepare { settings, request, root, contexts })).2) := by
  have hl : (locate path (prepare { settings, request, root, contexts })).1 = .error fault :=
    (locate_spec path _).1.trans hd
  rw [run, attempt_of_parse settings tags contexts root hp, follow]
  generalize locate path _ = located at hl
  obtain ⟨first, stopped⟩ := located
  obtain rfl : first = .error fault := hl
  rfl

theorem run_of_leads {d : Destination} (hp : FieldPath.parse request.path = .ok path)
    (hd : path.destination root contexts = .ok d) :
    run settings tags contexts request root = concluded (editDestination tags d
      (locate path (prepare { settings, request, root, contexts })).2) := by
  rw [run, attempt_eq settings tags hp hd]
  rfl

end Run

end Editing

end FieldPatch
