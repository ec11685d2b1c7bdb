import FieldPatch.Proofs.Edit.Repeat
import FieldPatch.Proofs.Session.Addressed
import FieldPatch.Proofs.Session.Calls
import FieldPatch.Proofs.Session.Frame
import FieldPatch.Proofs.Session.Next

namespace FieldPatch

namespace Stage

variable {stage : Stage}

/-- The same edit once more. -/
def again (stage : Stage) : Stage := stage.next stage.request

theorem contexts_again (stage : Stage) : stage.again.contexts = stage.turn.session.contexts := by
  have hf : stage.again.session.lastFile =
      some (.ofEdit stage.again.request stage.again.target.id) :=
    Session.lastFile_edit stage.request stage.target stage.session
  rw [contexts, Session.inFile, if_pos hf]
  rfl

/-- An edit that is passed over is passed over again. -/
theorem attempted_of_again (h : stage.again.Attempted) : stage.Attempted := by
  obtain ⟨hfree, hgiven⟩ := h
  refine ⟨fun hl => hfree ?_, hgiven⟩
  have hs : stage.again.session = stage.session := by
    have ht : stage.turn = _ := Session.edit_of_latched hl
    rw [again, next, ht]
  rw [hs]
  exact hl

theorem path?_of_again {path : FieldPath} (h : stage.again.path? = some path) :
    stage.path? = some path := by
  obtain ⟨ha, hp⟩ := attempted_of_read h
  have hp : FieldPath.parse stage.request.path = .ok path := hp
  rw [path?_of_attempted (attempted_of_again ha), hp]
  rfl

/-- Where the contexts are kept up to a depth, those of a path of that depth are the same. -/
theorem Carries.get?_again {n : Nat} {opened : List Context} (h : stage.Carries n opened)
    (hm : stage.rebase = id) {depth : Nat} (hd : depth ≤ n) {c : Context}
    (hc : stage.contexts.get? depth = some c) : stage.again.contexts.get? depth = some c := by
  rw [contexts_again]
  unfold ContextStack.get? at hc ⊢
  split at hc
  · contradiction
  · rename_i hz
    rw [if_neg hz, h.entries, hm, moved_id, List.map_id]
    have ht : (stage.contexts.entries.take n)[depth - 1]? = some c := by
      rw [List.getElem?_take_of_lt (by omega), hc]
    exact List.getElem?_append_left (List.getElem?_eq_some_iff.mp ht).1 ▸ ht

theorem read_of_destination {d : Destination} (h : stage.destination? = some d) :
    ∃ path, stage.path? = some path ∧
      path.destination stage.target.value stage.contexts = .ok d := by
  obtain ⟨path, hp, hd⟩ := Option.bind_eq_some_iff.mp h
  refine ⟨path, hp, ?_⟩
  cases hx : path.destination stage.target.value stage.contexts with
  | error fault =>
    rw [hx] at hd
    contradiction
  | ok found =>
    rw [hx] at hd
    cases hd
    rfl

/-- A path that led nowhere leads nowhere again. -/
theorem lost_again (h : stage.destination? = none) : stage.again.destination? = none := by
  cases hd : stage.again.destination? with
  | none => rfl
  | some d =>
    obtain ⟨path, hp, hd⟩ := read_of_destination hd
    have hp' := path?_of_again hp
    cases stage.course with
    | passed unread => cases hp'.symm.trans unread
    | @astray path' fault read leads outcome root contexts =>
      cases hp'.symm.trans read
      have hroot : stage.again.target.value = stage.target.value := root
      have hc (hu : path.usesContext = true) :
          stage.contexts.get? path.contextDepth =
            stage.again.contexts.get? path.contextDepth := by
        rw [contexts_again, contexts, FieldPath.get?_front hu]
      rw [hroot] at hd
      cases leads.symm.trans (FieldPath.destination_of_same_context hc hd)
    | arrived read leads =>
      rw [destination?_of_read read, leads] at h
      contradiction

/-- A path that leads somewhere again starts at the same context as before. -/
theorem context_again (hl : stage.contexts.Layered) {path : FieldPath} {d d' : Destination}
    (hp : stage.path? = some path)
    (hd : path.destination stage.target.value stage.contexts = .ok d)
    (hd' : path.destination stage.turn.root stage.again.contexts = .ok d')
    (hn : d.place.shifts stage.op = false) (hu : path.usesContext = true) :
    stage.again.contexts.get? path.contextDepth = stage.contexts.get? path.contextDepth := by
  have hdest : stage.destination? = some d := by rw [destination?_of_read hp, hd]; rfl
  have hm : stage.rebase = id := by
    rw [rebase_of_destination hdest]
    exact funext (Destination.rebase_of_unshifted hn stage.input)
  obtain ⟨n, opened, hcarries⟩ := stage.carries hl
  obtain ⟨c, hg, -⟩ := FieldPath.joins_of_destination hu hd
  obtain ⟨c', hg', -⟩ := FieldPath.joins_of_destination hu hd'
  by_cases hr : path.segments = [] ∧ stage.turn.outcome = .removed
  · -- The context went with its slot, so that the path cannot have led anywhere again.
    have hcount := hcarries.dropped path hp hu hr.1 hr.2
    have hclosed : stage.turn.opens = false := closed_of fun p => by rw [hr.2]; rfl
    have hnone : stage.again.contexts.get? path.contextDepth = none := by
      rw [contexts_again, ContextStack.get?]
      split
      · rfl
      · rw [List.getElem?_eq_none_iff, hcarries.entries, hcarries.closed hclosed,
          List.append_nil, List.length_map, List.length_take]
        omega
    cases hnone.symm.trans hg'
  · have hcount := hcarries.whole path hp hu hr
    rw [hcarries.get?_again hm (Nat.le_of_eq hcount.symm) hg, hg]

/-- The edit made again comes to the same place, if to any. -/
theorem place_again (hl : stage.contexts.Layered) {path : FieldPath} {d d' : Destination}
    (hp : stage.path? = some path)
    (hd : path.destination stage.target.value stage.contexts = .ok d)
    (hd' : path.destination stage.turn.root stage.again.contexts = .ok d')
    (hn : d.place.shifts stage.op = false) :
    d'.container = d.container ∧ d.place.Same d'.place := by
  have hdest : stage.destination? = some d := by rw [destination?_of_read hp, hd]; rfl
  have hf : stage.target.value.Framed d.slot stage.turn.root := by
    rw [← Destination.scope_of_unshifted hn]
    exact framed_of_destination hdest
  have hc (hu : path.usesContext = true) := context_again hl hp hd hd' hn hu
  have hout : ¬ d.container.startsWith d.slot := Location.not_startsWith_child _ _
  have hv (hs : path.segments = []) : (stage.turn.root.at? d.slot).isSome = true := by
    obtain ⟨hu, hv⟩ := FieldPath.destination_of_bare hs hd'
    obtain ⟨c, hg, hj⟩ := FieldPath.joins_of_destination hu hd
    obtain ⟨c', hg', hj'⟩ := FieldPath.joins_of_destination hu hd'
    rw [hc hu, hg] at hg'
    cases hg'
    rw [(hj.own hs).1, ← (hj'.own hs).1]
    exact hv
  obtain ⟨place, hagain, hsame⟩ := FieldPath.destination_again hf hd hout hc hv
  cases hd'.symm.trans hagain
  exact ⟨rfl, hsame⟩

/-- An edit made again leaves the config as it left it the first time. -/
theorem root_again (hl : stage.contexts.Layered)
    (hn : ∀ d ∈ stage.destination?, d.place.shifts stage.op = false)
    (hk : ∀ d ∈ stage.destination?, d.place.Distinct) :
    stage.again.turn.root = stage.turn.root := by
  cases hd' : stage.again.destination? with
  | none => exact still_of_lost hd'
  | some d' =>
    cases hd : stage.destination? with
    | none => cases hd'.symm.trans (lost_again hd)
    | some d =>
      obtain ⟨path, hp, hlead⟩ := read_of_destination hd
      obtain ⟨path', hp', hlead'⟩ := read_of_destination hd'
      obtain rfl : path = path' := Option.some.inj (hp.symm.trans (path?_of_again hp'))
      have hc := context_again hl hp hlead hlead' (hn d hd)
      obtain ⟨hcontainer, hsame⟩ := place_again hl hp hlead hlead' (hn d hd)
      obtain ⟨arrived, hcomes⟩ := comes hp hlead
      obtain ⟨arrived', hcomes'⟩ := comes hp' hlead'
      have hop : arrived.progress.op = stage.op := hcomes.arrives.op
      have hasks : arrived'.asks = arrived.asks :=
        hcomes.asks_again hcomes' rfl (FieldPath.lastSegment?_of_same_context hc)
      have htags : stage.again.session.tags = stage.session.tags := stage.tags_next _
      have hstart : arrived'.root = stage.turn.root := hcomes'.arrives.root
      rw [hcomes'.root, htags]
      refine (Editing.editDestination_again ?_ ?_ ?_ (hk d hd) hcontainer hsame hasks ?_).trans
        hstart
      · rw [hcomes.arrives.root]
        exact hcomes.arrives.held
      · rw [hcomes'.arrives.root]
        exact hcomes'.arrives.held
      · rw [hop]
        exact hn d hd
      · rw [hstart, hcomes.root]

end Stage

namespace Session

/-- Whatever a session was called for before, the config is the same after an edit is made twice in
a row as after it is made once, if the edit neither inserts into a list nor removes from one. That
holds also if it faults, and if the second edit is skipped for that. -/
theorem retry_harmless (settings : Settings) (tags : TagTable) (calls : List Call)
    (request : Request) (target : Object) :
    let s := (start settings tags).1.after calls
    let stage : Stage := ⟨s, target, request⟩
    let once := s.edit request target
    let twice := once.session.edit request ⟨target.id, once.root⟩
    (∀ d ∈ stage.destination?, d.place.shifts stage.op = false) →
      (∀ d ∈ stage.destination?, d.place.Distinct) → twice.root = once.root := by
  intro s stage once twice hn hk
  have hl : stage.contexts.Layered := layered_inFile (layered_after settings tags calls) _
  exact Stage.root_again hl hn hk

/-- An entry is made for a list of parts, but no text can be read as one. The edit starts at the map
as a context, and its repetition finds the entry there. -/
theorem ship_retry_harmless :
    let target : Object := ⟨.loose 0, RecordType.ship.fresh⟩
    let request : Request := { path := "^.4", value := "5 !+" }
    let calls : List Call := [.edit { path := "parts", value := "!^" } target]
    let s := (start { latchFaults := false } []).1.after calls
    let stage : Stage := ⟨s, target, request⟩
    let once := s.edit request target
    let twice := once.session.edit request ⟨target.id, once.root⟩
    (∀ d ∈ stage.destination?, d.place.shifts stage.op = false) ∧
      (∀ d ∈ stage.destination?, d.place.Distinct) ∧
      stage.scope? = some [.field "parts", .key (.int 4)] ∧
      once.outcome.isFault = true ∧ twice.outcome.isFault = false ∧ twice.root = once.root := by
  intro target request calls s stage once twice
  have hn : ∀ d ∈ stage.destination?, d.place.shifts stage.op = false := by decide +kernel
  have hk : ∀ d ∈ stage.destination?, d.place.Distinct := by decide +kernel
  exact ⟨hn, hk, by decide +kernel, by decide +kernel, by decide +kernel,
    retry_harmless { latchFaults := false } [] calls request target hn hk⟩

end Session

end FieldPatch
