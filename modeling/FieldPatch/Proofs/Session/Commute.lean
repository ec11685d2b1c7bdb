import FieldPatch.Proofs.Edit.Revisit
import FieldPatch.Proofs.Session.Addressed
import FieldPatch.Proofs.Session.Frame
import FieldPatch.Proofs.Session.Next

namespace FieldPatch

/-- Of two configs, both stay as they are, or the same value is written at the location in both. -/
inductive WritesAlike (l : Location) (before before' after after' : Value RecordType) : Prop
  | still (first : after = before) (second : after' = before')
  | written {value : Value RecordType} (first : before.replace? l value = some after)
      (second : before'.replace? l value = some after')

/-- Writes at locations apart from each other come to the same in either order. -/
theorem WritesAlike.comm {l m : Location} {root first second both both' : Value RecordType}
    (h : WritesAlike m root first second both) (h' : WritesAlike l root second first both')
    (hl : ¬ l.startsWith m) (hm : ¬ m.startsWith l) : both = both' := by
  cases h with
  | still hsecond hboth =>
    cases h' with
    | still hfirst hboth' => rw [hboth, hfirst, hboth', hsecond]
    | written hfirst hboth' =>
      rw [hsecond, hfirst] at hboth'
      rw [hboth]
      exact Option.some.inj hboth'
  | written hsecond hboth =>
    cases h' with
    | still hfirst hboth' =>
      rw [hfirst, hsecond] at hboth
      rw [hboth']
      exact (Option.some.inj hboth).symm
    | written hfirst hboth' => exact Value.replace?_comm hfirst hsecond hboth hboth' hl hm

namespace Stage

variable {stage : Stage} {path : FieldPath} {d : Destination}

/-- The edit is asked of the slot, by a path without markers. It is to bring nothing into a list or
map, and to take nothing out of one. -/
structure AsksSlot (stage : Stage) (path : FieldPath) (d : Destination) : Prop where
  read : FieldPath.parse stage.request.path = .ok path
  unmarked : path.usesContext = false
  leads : path.destination stage.target.value stage.contexts = .ok d
  own : d.place.resizes stage.op = false

/-- At its destination, an edit of a slot is a request of it. -/
theorem Comes.affects {arrived : Editing} (hc : stage.Comes path d arrived)
    (own : d.place.resizes stage.op = false) {current : Value RecordType}
    (hs : stage.target.value.at? d.slot = some current) :
    let effect := arrived.asks.effect stage.session.tags d.place.kind current
    stage.turn.outcome = effect.1 ∧
      stage.target.value.replace? d.slot effect.2 = some stage.turn.root := by
  have hroot : arrived.root = stage.target.value := hc.arrives.root
  have hop : arrived.progress.op = stage.op := hc.arrives.op
  have hh : d.Held arrived.root := hroot ▸ hc.arrives.held
  have ha := Editing.editDestination_affects stage.session.tags hh (hop ▸ own) (hroot ▸ hs)
  intro effect
  rw [hc.outcome, hc.root, ← hroot]
  exact ⟨ha.outcome, ha.written⟩

/-- An edit of a slot that does not fault finds the slot there. -/
theorem Comes.present {arrived : Editing} (hc : stage.Comes path d arrived)
    (own : d.place.resizes stage.op = false) (hf : stage.turn.outcome.isFault = false) :
    ∃ current, stage.target.value.at? d.slot = some current := by
  have hroot : arrived.root = stage.target.value := hc.arrives.root
  have hop : arrived.progress.op = stage.op := hc.arrives.op
  have hh : d.Held arrived.root := hroot ▸ hc.arrives.held
  cases hs : stage.target.value.at? d.slot with
  | some current => exact ⟨current, rfl⟩
  | none =>
    obtain ⟨fault, left, he, -⟩ := Editing.editDestination_of_absent stage.session.tags hh
      (hop ▸ own) (hroot ▸ hs)
    rw [hc.outcome, he] at hf
    contradiction

theorem AsksSlot.framed (h : stage.AsksSlot path d) :
    stage.target.value.Framed d.slot stage.turn.root := by
  rw [← Destination.scope_of_own h.own]
  by_cases ha : stage.Attempted
  · refine framed_of_destination ?_
    rw [destination?, path?_of_attempted ha, h.read]
    change (path.destination stage.target.value stage.contexts).toOption = some d
    rw [h.leads]
    rfl
  · have hn : stage.destination? = none := by
      rw [destination?, path?_of_not_attempted ha]
      rfl
    rw [still_of_lost hn]
    exact (FieldPath.held_of_destination h.leads).framed stage.op

/-- After an edit of another slot, a path leads to the slot that it leads to without that. -/
theorem AsksSlot.leads_next {request : Request} {path' : FieldPath} {d' : Destination}
    (h : stage.AsksSlot path d)
    (h' : Stage.AsksSlot ⟨stage.session, stage.target, request⟩ path' d')
    (hl : ¬ d'.slot.startsWith d.slot) :
    ∃ place, path'.destination stage.turn.root (stage.next request).contexts =
      .ok ⟨d'.container, place⟩ ∧ d'.place.Same place := by
  have hout : ¬ d'.container.startsWith d.slot := fun hs =>
    hl (Location.startsWith_trans (Location.startsWith_child _ _) hs)
  refine FieldPath.destination_again h.framed h'.leads hout ?_ ?_
  · intro hu
    rw [h'.unmarked] at hu
    contradiction
  · intro hs
    have hu := (FieldPath.destination_of_bare hs h'.leads).1
    rw [h'.unmarked] at hu
    contradiction

/-- After an edit of a slot apart from its own, an edit ends as it does without that, and writes the
same value. -/
theorem AsksSlot.beside {request : Request} {path' : FieldPath} {d' : Destination}
    (h : stage.AsksSlot path d)
    (h' : Stage.AsksSlot ⟨stage.session, stage.target, request⟩ path' d')
    (hl : ¬ d.slot.startsWith d'.slot) (hl' : ¬ d'.slot.startsWith d.slot)
    (hfree : ∀ file, ¬ stage.session.Latched file)
    (hf : stage.turn.outcome.isFault = false)
    (hf' : (Stage.turn ⟨stage.session, stage.target, request⟩).outcome.isFault = false) :
    let alone : Stage := ⟨stage.session, stage.target, request⟩
    let after := stage.next request
    after.turn.outcome = alone.turn.outcome ∧
      WritesAlike d'.slot stage.target.value stage.turn.root alone.turn.root after.turn.root := by
  intro alone after
  have hfree' : ¬ after.session.Latched (.ofEdit after.request after.target.id) :=
    free_next (hfree _) hf _
  cases hv : Session.isVoid request with
  | true =>
    obtain ⟨notes, he⟩ := Session.edit_void (hfree (.ofEdit request stage.target.id)) hv
    obtain ⟨notes', he'⟩ := Session.edit_void hfree' hv
    have halone : alone.turn = _ := he
    have hafter : after.turn = _ := he'
    rw [halone, hafter]
    exact ⟨rfl, .still rfl rfl⟩
  | false =>
    have hread : alone.path? = some path' := by
      have ha : alone.Attempted := ⟨hfree _, hv⟩
      rw [path?_of_attempted ha, h'.read]
      rfl
    have hread' : after.path? = some path' := by
      have ha : after.Attempted := ⟨hfree', hv⟩
      have hparse : FieldPath.parse after.request.path = .ok path' := h'.read
      rw [path?_of_attempted ha, hparse]
      rfl
    obtain ⟨place, hlead, hsame⟩ := h.leads_next h' hl'
    obtain ⟨arrived, hcomes⟩ := comes hread h'.leads
    obtain ⟨arrived', hcomes'⟩ := comes hread' hlead
    -- The slot is there as it was, and the same is asked of it.
    obtain ⟨current, hs⟩ := hcomes.present h'.own hf'
    have hslot : Destination.slot ⟨d'.container, place⟩ = d'.slot :=
      Destination.slot_of_same rfl hsame
    have hs' : stage.turn.root.at? (Destination.slot ⟨d'.container, place⟩) = some current := by
      rw [hslot, h.framed.apart _ hl' hl]
      exact hs
    have hasks : arrived'.asks = arrived.asks :=
      hcomes.asks_again hcomes' rfl
        (FieldPath.lastSegment?_of_unmarked h'.unmarked alone.contexts after.contexts)
    have hown : place.resizes after.op = false := by
      rw [hsame.resizes]
      exact h'.own
    obtain ⟨houtcome, hwritten⟩ := hcomes.affects h'.own hs
    obtain ⟨houtcome', hwritten'⟩ := hcomes'.affects hown hs'
    rw [hasks, stage.tags_next, hsame.kind] at houtcome' hwritten'
    rw [hslot] at hwritten'
    exact ⟨houtcome'.trans houtcome.symm, .written hwritten hwritten'⟩

end Stage

namespace Session

theorem not_latched_start (settings : Settings) (tags : TagTable) (file : FileId) :
    ¬ (start settings tags).1.Latched file := by
  rintro ⟨hl, -⟩
  contradiction

/-- Two edits of slots, neither of which is the other or lies inside it, by paths from the root:
if neither faults when it is made alone in a new session, then in either order each ends as it does
alone, and both orders leave the same config. -/
theorem edits_commute (settings : Settings) (tags : TagTable) (target : Object) (a b : Request)
    {path path' : FieldPath} {d d' : Destination}
    (ha : Stage.AsksSlot ⟨(start settings tags).1, target, a⟩ path d)
    (hb : Stage.AsksSlot ⟨(start settings tags).1, target, b⟩ path' d')
    (hl : ¬ d.slot.startsWith d'.slot) (hl' : ¬ d'.slot.startsWith d.slot)
    (hf : ((start settings tags).1.edit a target).outcome.isFault = false)
    (hf' : ((start settings tags).1.edit b target).outcome.isFault = false) :
    let s := (start settings tags).1
    let aloneA := s.edit a target
    let aloneB := s.edit b target
    let thenB := aloneA.session.edit b ⟨target.id, aloneA.root⟩
    let thenA := aloneB.session.edit a ⟨target.id, aloneB.root⟩
    thenB.outcome = aloneB.outcome ∧ thenA.outcome = aloneA.outcome ∧ thenB.root = thenA.root := by
  intro s aloneA aloneB thenB thenA
  have hfree := not_latched_start settings tags
  obtain ⟨houtcome, hwrites⟩ := ha.beside hb hl hl' hfree hf hf'
  obtain ⟨houtcome', hwrites'⟩ := hb.beside ha hl' hl hfree hf' hf
  exact ⟨houtcome, houtcome', hwrites.comm hwrites' hl hl'⟩

/-- The numbers of two rows of a sheet are changed in either order. -/
theorem rows_commute :
    let s := (start {} []).1
    let target : Object := ⟨.loose 0, RecordType.sheet.fresh⟩
    let a : Request := { path := "rows.0.0", value := "5" }
    let b : Request := { path := "rows.1.+0", value := "8" }
    let row (i : Nat) : Location := [.field "rows", .index i]
    let place (n : Int32) : Place := .element [.int n] (some 0) .int
    Stage.AsksSlot ⟨s, target, a⟩ ⟨0, ["rows", "0", "0"]⟩ ⟨row 0, place 1⟩ ∧
      Stage.AsksSlot ⟨s, target, b⟩ ⟨0, ["rows", "1", "+0"]⟩ ⟨row 1, place 2⟩ ∧
      (s.edit a target).outcome.isFault = false ∧ (s.edit b target).outcome.isFault = false ∧
      ((s.edit a target).session.edit b ⟨target.id, (s.edit a target).root⟩).root =
        ((s.edit b target).session.edit a ⟨target.id, (s.edit b target).root⟩).root := by
  intro s target a b row place
  have ha : Stage.AsksSlot ⟨s, target, a⟩ ⟨0, ["rows", "0", "0"]⟩ ⟨row 0, place 1⟩ :=
    ⟨by decide +kernel, rfl, rfl, by decide +kernel⟩
  have hb : Stage.AsksSlot ⟨s, target, b⟩ ⟨0, ["rows", "1", "+0"]⟩ ⟨row 1, place 2⟩ :=
    ⟨by decide +kernel, rfl, rfl, by decide +kernel⟩
  have hf : (s.edit a target).outcome.isFault = false := by decide +kernel
  have hf' : (s.edit b target).outcome.isFault = false := by decide +kernel
  exact ⟨ha, hb, hf, hf',
    (edits_commute {} [] target a b ha hb (by decide) (by decide) hf hf').2.2⟩

end Session

end FieldPatch
