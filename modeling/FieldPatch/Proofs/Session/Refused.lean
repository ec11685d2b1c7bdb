import FieldPatch.Proofs.Edit.Refused
import FieldPatch.Proofs.Session.Arrival
import FieldPatch.Proofs.Session.Calls

namespace FieldPatch

theorem Outcome.faulted_of_fault? {outcome : Outcome} {fault : Fault}
    (h : outcome.fault? = some fault) : outcome = .faulted fault := by
  cases outcome with
  | faulted raised => rw [Option.some.inj h]
  | _ => contradiction

namespace Stage

variable {stage : Stage} {fault : Fault}

/-- The contexts that the edit works on: those up to the one that its path starts at, if it starts
at one. -/
def front (stage : Stage) : ContextStack :=
  match stage.path? with
  | some path => path.front stage.contexts
  | none => stage.contexts

/-- The edit adds an entry for a value that is given, at a place that takes entries. -/
structure Adds (stage : Stage) (d : Destination) : Prop where
  asked : stage.op = .insert
  given : Text.allBlank stage.input = false
  comes : stage.destination? = some d
  takes : d.place.takesEntry = true

/-- The list has one element more, which is what made room for the element that was to be added, and
the contexts behind it have moved up. -/
structure KeepsElement (stage : Stage) (list : Location) (items : List (Value RecordType))
    (position : Nat) (kind : Kind RecordType) : Prop where
  held : stage.target.value.at? list = some (.list items)
  written : stage.target.value.replace? list
    (.list (items.insertIdx position kind.placeholder)) = some stage.turn.root
  contexts : stage.turn.session.contexts = stage.front.afterInsert list position

/-- The map has one entry more at its end, with what made room for it under the key. -/
structure KeepsEntry (stage : Stage) (map : Location) (entries : List (Key × Value RecordType))
    (key : Key) (kind : Kind RecordType) : Prop where
  held : stage.target.value.at? map = some (.map entries)
  written : stage.target.value.replace? map (.map (entries ++ [(key, kind.placeholder)])) =
    some stage.turn.root
  contexts : stage.turn.session.contexts = stage.front

/-- What is left of an edit that ends in a fault. Unless the path is to blame, an entry that was to
be added is there, but it is only what made room for it. -/
structure Leaves (stage : Stage) (fault : Fault) : Prop where
  still : (fault.faultClass = .structural ∨ ∀ d, ¬ stage.Adds d) →
    stage.turn.root = stage.target.value ∧ stage.turn.session.contexts = stage.front
  element : fault.faultClass ≠ .structural → ∀ d, stage.Adds d → ∀ items index kind,
    d.place = .element items index kind →
      stage.KeepsElement d.container items (Place.position items index) kind
  entry : fault.faultClass ≠ .structural → ∀ d, stage.Adds d → ∀ entries key kind,
    d.place = .entry entries key kind → stage.KeepsEntry d.container entries key kind

theorem front_of_read {path : FieldPath} (h : stage.path? = some path) :
    stage.front = path.front stage.contexts := by
  rw [front, h]

theorem not_adds_of_lost (h : stage.destination? = none) (d : Destination) : ¬ stage.Adds d := by
  intro ha
  cases h.symm.trans ha.comes

theorem leaves_of_still (hn : ∀ d, ¬ stage.Adds d) (hr : stage.turn.root = stage.target.value)
    (hc : stage.turn.session.contexts = stage.front) : stage.Leaves fault where
  still := fun _ => ⟨hr, hc⟩
  element := fun _ d ha => absurd ha (hn d)
  entry := fun _ d ha => absurd ha (hn d)

/-- An edit adds at one destination only. -/
theorem leaves_of_adds {d : Destination} (ha : stage.Adds d)
    (hs : fault.faultClass ≠ .structural)
    (element : ∀ items index kind, d.place = .element items index kind →
      stage.KeepsElement d.container items (Place.position items index) kind)
    (entry : ∀ entries key kind, d.place = .entry entries key kind →
      stage.KeepsEntry d.container entries key kind) : stage.Leaves fault := by
  have hone (other : Destination) (ho : stage.Adds other) : d = other :=
    Option.some.inj (ha.comes.symm.trans ho.comes)
  constructor
  case still => exact fun hn => (hn.elim hs fun hn => hn d ha).elim
  case element =>
    intro _ other ho
    obtain rfl := hone other ho
    exact element
  case entry =>
    intro _ other ho
    obtain rfl := hone other ho
    exact entry

/-- At its destination, the edit adds what it was asked to add. -/
theorem adds_iff {path : FieldPath} {d : Destination} {arrived : Editing}
    (hv : Editing.Arrives stage.contexts stage.request stage.target.value path d arrived)
    (hs : stage.destination? = some d) : Editing.Adds d arrived ↔ stage.Adds d := by
  have ho : arrived.progress.op = stage.op := hv.op
  have hi : arrived.progress.value = stage.input := hv.value
  constructor
  · intro h
    exact ⟨ho ▸ h.asked, hi ▸ h.given, hs, h.takes⟩
  · intro h
    exact ⟨ho ▸ h.asked, hi ▸ h.given, h.takes⟩

theorem leaves_of_arrived {path : FieldPath} {d : Destination} (hp : stage.path? = some path)
    (hd : path.destination stage.target.value stage.contexts = .ok d)
    (h : stage.turn.outcome = .faulted fault) : stage.Leaves fault := by
  obtain ⟨arrived, hc⟩ := comes hp hd
  have hv := hc.arrives
  have hs : stage.destination? = some d := by rw [destination?_of_read hp, hd]; rfl
  have hfront : arrived.contexts = stage.front := hv.contexts.trans (front_of_read hp).symm
  have hheld := hv.held
  have hroot := hc.root
  have hcontexts := hc.contexts
  have hr := Editing.editDestination_refuses (hv.root ▸ hv.held) (hc.error_of_faulted h)
  generalize Editing.editDestination stage.session.tags d arrived = result at hroot hcontexts hr
  cases hr with
  | still calm root contexts =>
    refine leaves_of_still (fun other ha => calm ?_) ?_ ?_
    · obtain rfl := Option.some.inj (hs.symm.trans ha.comes)
      exact (adds_iff hv hs).mpr ha
    · rw [hroot, root, hv.root]
    · rw [hcontexts, contexts, hfront]
  | @element items index kind adds place sort written contexts =>
    refine leaves_of_adds ((adds_iff hv hs).mp adds) sort ?_ ?_
    · intro items' index' kind' hplace
      cases place.symm.trans hplace
      rw [Destination.Held, place] at hheld
      exact ⟨hheld, by rw [hroot, ← hv.root, written], by rw [hcontexts, contexts, hfront]⟩
    · intro entries key kind' hplace
      cases place.symm.trans hplace
  | @entry entries key kind adds place sort written contexts =>
    refine leaves_of_adds ((adds_iff hv hs).mp adds) sort ?_ ?_
    · intro items index kind' hplace
      cases place.symm.trans hplace
    · intro entries' key' kind' hplace
      cases place.symm.trans hplace
      rw [Destination.Held, place] at hheld
      exact ⟨hheld, by rw [hroot, ← hv.root, written], by rw [hcontexts, contexts, hfront]⟩

/-- An edit that ends in a fault leaves the config as it was, and the contexts that it worked on.
Only an insertion of a value that could not be read or is not allowed leaves one entry more, the
default instance of the kind or null, in the place that the path names; then the contexts behind it
in a list have moved up. -/
theorem faulted_edit_leaves (h : stage.turn.outcome = .faulted fault) : stage.Leaves fault := by
  cases stage.course with
  | passed unread root contexts closed =>
    have hd : stage.destination? = none := by rw [destination?, unread, Option.bind_none]
    exact leaves_of_still (not_adds_of_lost hd) root (by rw [contexts, front, unread])
  | astray read leads outcome root contexts =>
    have hd : stage.destination? = none := by rw [destination?_of_read read, leads]; rfl
    exact leaves_of_still (not_adds_of_lost hd) root (by rw [contexts, front_of_read read])
  | arrived read leads => exact leaves_of_arrived read leads h

/-- A number is no row. The row that was to hold it stays, empty, and the context behind it has
moved up. -/
theorem number_leaves_row :
    let target : Object := ⟨.loose 0, RecordType.sheet.fresh⟩
    let first := (Session.start {} []).1.edit { path := "rows.1", value := "!^" } target
    let stage : Stage := ⟨first.session, { target with value := first.root },
      { path := "rows.0", value := "1 !+" }⟩
    ∃ fault, stage.turn.outcome = .faulted fault ∧ fault.faultClass = .policy ∧
      stage.Leaves fault ∧
      (stage.turn.root.at? [.field "rows", .index 0]).map Value.text = some "list[0]" ∧
      stage.turn.session.contexts.entries.map (fun c => c.location.text) = ["rows.2"] := by
  intro target first stage
  have hf : stage.turn.outcome.fault?.map Fault.faultClass = some .policy := by decide +kernel
  have hc : stage.turn.session.contexts.entries.map (fun c => c.location.text) = ["rows.2"] := by
    decide +kernel
  have hrow : (stage.turn.root.at? [.field "rows", .index 0]).map Value.text = some "list[0]" := by
    decide +kernel
  obtain ⟨fault, ho, hclass⟩ := Option.map_eq_some_iff.mp hf
  have ho : stage.turn.outcome = .faulted fault := Outcome.faulted_of_fault? ho
  exact ⟨fault, ho, hclass, faulted_edit_leaves ho, hrow, hc⟩

end Stage

end FieldPatch
