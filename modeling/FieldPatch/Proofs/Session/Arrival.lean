import FieldPatch.Proofs.Edit.Entry
import FieldPatch.Proofs.Edit.Spelled
import FieldPatch.Proofs.Edit.Told
import FieldPatch.Proofs.Session.Stage

namespace FieldPatch

/-- Up to its last segment, the path leads to the cursor. -/
structure FieldPath.LeadsInto (path : FieldPath) (root : Value RecordType)
    (contexts : ContextStack) (cursor : Cursor) (last : String) : Prop where
  ends : path.segments.getLast? = some last
  walks : ∃ start, path.origin root contexts = .ok start ∧
    start.walk root path.segments.dropLast = .ok cursor

/-- The path with another last segment. -/
def FieldPath.withLast (path : FieldPath) (last : String) : FieldPath :=
  { path with segments := path.segments.dropLast ++ [last] }

namespace FieldPath.LeadsInto

variable {path : FieldPath} {root : Value RecordType} {contexts : ContextStack} {cursor : Cursor}
  {last : String}

theorem destination (h : path.LeadsInto root contexts cursor last) :
    path.destination root contexts =
      match cursor.place root last with
      | .error fault => .error fault
      | .ok place => .ok ⟨cursor.location, place⟩ := by
  obtain ⟨start, ho, hw⟩ := h.walks
  cases hp : cursor.place root last with
  | error fault => simp only [FieldPath.destination, ho, h.ends, Cursor.destination, hw, hp]
  | ok place => simp only [FieldPath.destination, ho, h.ends, Cursor.destination, hw, hp]

theorem withLast (h : path.LeadsInto root contexts cursor last) (other : String) :
    (path.withLast other).LeadsInto root contexts cursor other := by
  obtain ⟨start, ho, hw⟩ := h.walks
  refine ⟨List.getLast?_concat, start, ho, ?_⟩
  rwa [FieldPath.withLast, List.dropLast_concat]

end FieldPath.LeadsInto

open Editing in
/-- The edit arrives at a destination, in this state, and ends as an edit there does. -/
structure Stage.Comes (stage : Stage) (path : FieldPath) (d : Destination) (arrived : Editing) :
    Prop where
  arrives : Arrives stage.contexts stage.request stage.target.value path d arrived
  segment : path.lastSegment? stage.contexts = some arrived.progress.segment
  outcome : stage.turn.outcome = ending (editDestination stage.session.tags d arrived)
  root : stage.turn.root = (editDestination stage.session.tags d arrived).2.root
  contexts : stage.turn.session.contexts =
    (editDestination stage.session.tags d arrived).2.contexts

namespace Stage

variable {stage : Stage}

theorem attempted_of_read {path : FieldPath} (h : stage.path? = some path) :
    stage.Attempted ∧ FieldPath.parse stage.request.path = .ok path := by
  rw [path?] at h
  split at h
  · rename_i ha
    refine ⟨ha, ?_⟩
    cases hp : FieldPath.parse stage.request.path with
    | error fault =>
      rw [hp] at h
      contradiction
    | ok read =>
      rw [hp] at h
      cases h
      rfl
  · contradiction

theorem comes {path : FieldPath} {d : Destination} (hp : stage.path? = some path)
    (hd : path.destination stage.target.value stage.contexts = .ok d) :
    ∃ arrived, stage.Comes path d arrived := by
  obtain ⟨ha, hparse⟩ := attempted_of_read hp
  obtain ⟨notes, he⟩ := Session.edit_given ha.1 ha.2
  have ht : stage.turn = _ := he
  obtain ⟨hl, hv⟩ := Editing.locate_arrives stage.session.settings stage.request hd
  obtain ⟨ho, hr, hc⟩ := Editing.run_ending stage.session.settings stage.session.tags
    stage.contexts stage.request stage.target.value
  rw [Editing.attempt_eq stage.session.settings stage.session.tags hparse hd] at ho hr hc
  exact ⟨_, hv, Editing.segment_locate hl, by rw [ht, ← ho]; rfl, by rw [ht, ← hr]; rfl,
    by rw [ht, ← hc]; rfl⟩

/-- At a destination, an edit only ends in a fault that is raised there. -/
theorem Comes.error_of_faulted {path : FieldPath} {d : Destination} {arrived : Editing}
    {fault : Fault} (hc : stage.Comes path d arrived) (h : stage.turn.outcome = .faulted fault) :
    (Editing.editDestination stage.session.tags d arrived).1 = .error fault := by
  obtain ⟨verbs, hr⟩ := Editing.editDestination_reported stage.session.tags arrived d
  rw [hc.outcome, Editing.ending] at h
  split at h
  · rename_i outcome ho
    have hf := hr.sound outcome ho
    rw [h] at hf
    contradiction
  · rename_i raised ho
    cases h
    exact ho

/-- The edit adds an entry to a container, of which `grown` says what it is with the entry. It goes
through exactly if there is an entry for the value. -/
structure Grows (stage : Stage) (container : Location) (kind : Kind RecordType)
    (grown : Value RecordType → Value RecordType) : Prop where
  goes : stage.turn.outcome.isFault = false ↔
    ∃ entry, kind.Entry stage.session.tags stage.input entry
  grown : stage.turn.outcome.isFault = false →
    ∃ entry, kind.Entry stage.session.tags stage.input entry ∧
      stage.target.value.replace? container (grown entry) = some stage.turn.root

theorem grows_of_inserts {container : Location} {kind : Kind RecordType}
    {grown : Value RecordType → Value RecordType} {moved : ContextStack} {e : Editing}
    {r : Editing.Result}
    (h : Editing.Inserts stage.session.tags container kind grown moved e r)
    (hr : e.root = stage.target.value) (hv : e.progress.value = stage.input)
    (houtcome : stage.turn.outcome = Editing.ending r) (hroot : stage.turn.root = r.2.root) :
    stage.Grows container kind grown := by
  have hgoes := h.isFault_iff
  have hgrown := h.written
  rw [hv, ← houtcome] at hgoes hgrown
  rw [hr, ← hroot] at hgrown
  exact ⟨hgoes, hgrown⟩

/-- The edit comes to the place that the last segment of its path addresses. -/
theorem comes_into {path : FieldPath} {cursor : Cursor} {last : String} {place : Place}
    (ha : stage.Attempted) (hp : FieldPath.parse stage.request.path = .ok path)
    (h : path.LeadsInto stage.target.value stage.contexts cursor last)
    (hc : cursor.place stage.target.value last = .ok place) :
    ∃ arrived, stage.Comes path ⟨cursor.location, place⟩ arrived ∧
      arrived.progress.segment = last := by
  have hn : stage.path? = some path := by rw [path?_of_attempted ha, hp]; rfl
  have hd : path.destination stage.target.value stage.contexts = .ok ⟨cursor.location, place⟩ := by
    rw [h.destination, hc]
  obtain ⟨arrived, hcomes⟩ := comes hn hd
  have hs := hcomes.segment
  rw [FieldPath.lastSegment?, h.ends] at hs
  exact ⟨arrived, hcomes, (Option.some.inj hs).symm⟩

/-- A last segment that addresses no place is a fault. -/
theorem faults_into {path : FieldPath} {cursor : Cursor} {last : String} {fault : Fault}
    (ha : stage.Attempted) (hp : FieldPath.parse stage.request.path = .ok path)
    (h : path.LeadsInto stage.target.value stage.contexts cursor last)
    (hc : cursor.place stage.target.value last = .error fault) :
    stage.turn.outcome = .faulted fault ∧ stage.turn.root = stage.target.value := by
  have hn : stage.path? = some path := by rw [path?_of_attempted ha, hp]; rfl
  have hd : path.destination stage.target.value stage.contexts = .error fault := by
    rw [h.destination, hc]
  cases stage.course with
  | passed unread => cases hn.symm.trans unread
  | astray read leads outcome root =>
    obtain rfl := Option.some.inj (hn.symm.trans read)
    cases hd.symm.trans leads
    exact ⟨outcome, root⟩
  | arrived read leads =>
    obtain rfl := Option.some.inj (hn.symm.trans read)
    cases hd.symm.trans leads

end Stage

end FieldPatch
