import FieldPatch.Proofs.Edit.Contents
import FieldPatch.Proofs.Session.Arrival
import FieldPatch.Proofs.Session.Calls

namespace FieldPatch

/-- The text stands for an index of a list, or for the place after the last element. -/
inductive Segment.Addresses : String → Option Nat → Prop
  | glob : Addresses glob none
  | index {text : String} {i : Nat} (read : Integer.index? text = some i) : Addresses text (some i)

theorem Segment.Addresses.place {text : String} {index : Option Nat}
    (h : Segment.Addresses text index) (items : List (Value RecordType))
    (kind : Kind RecordType) :
    Place.ofSegment (.list kind) (.list items) text = .ok (.element items index kind) := by
  cases h with
  | glob => rfl
  | index read =>
    have hg : Integer.index? Segment.glob = none := by decide +kernel
    have hn : Segment.isGlob text = false := by
      rw [Bool.eq_false_iff]
      intro h
      obtain rfl : text = Segment.glob := by simpa [Segment.isGlob] using h
      cases hg.symm.trans read
    rw [Place.ofSegment, if_neg (by simp [hn])]
    simp only [read]

namespace Stage

variable {stage : Stage}

/-- What the edit makes of a list at an index, or behind the last element where there is none. -/
structure EditsList (stage : Stage) (list : Location) (items : List (Value RecordType))
    (kind : Kind RecordType) (index : Option Nat) (last : String) : Prop where
  inserts : stage.op = .insert → stage.Grows list kind fun entry =>
    .list (items.insertIdx (Place.position items index) entry)
  removes : stage.op = .remove → ∀ i, index = some i → i < items.length →
    stage.turn.outcome = .removed ∧
      stage.target.value.replace? list (.list (items.eraseIdx i)) = some stage.turn.root
  changes : stage.op ≠ .insert → stage.op ≠ .remove → ∀ i, index = some i → i < items.length →
    ∃ entry, stage.target.value.replace? list (.list (items.set i entry)) = some stage.turn.root
  outside : stage.op ≠ .insert → (∀ i, index = some i → items.length ≤ i) →
    stage.turn.outcome = .faulted (.elementOutOfRange stage.op last items.length) ∧
      stage.turn.root = stage.target.value

/-- An edit that comes to a place in a list makes of the list what its operation says. -/
theorem Comes.editsList {path : FieldPath} {list : Location} {items : List (Value RecordType)}
    {index : Option Nat} {kind : Kind RecordType} {arrived : Editing}
    (hc : stage.Comes path ⟨list, .element items index kind⟩ arrived) :
    stage.EditsList list items kind index arrived.progress.segment := by
  let standing : Editing := { arrived with progress := { arrived.progress with atEnd := true } }
  have hr : standing.root = stage.target.value := hc.arrives.root
  have ho : standing.progress.op = stage.op := hc.arrives.op
  have hv : standing.progress.value = stage.input := hc.arrives.value
  have hl : standing.root.at? list = some (.list items) := hr ▸ hc.arrives.held
  have hedit : Editing.EditsElements stage.session.tags list items index kind standing
      (Editing.editDestination stage.session.tags ⟨list, .element items index kind⟩ arrived) :=
    Editing.editElement_edits hl
  have houtcome := hc.outcome
  have hroot := hc.root
  generalize Editing.editDestination stage.session.tags ⟨list, .element items index kind⟩ arrived =
    r at hedit houtcome hroot
  have hinside (i : Nat) (hn : index = some i) (hlt : i < items.length) :
      index.filter (· < items.length) = some i :=
    Option.filter_eq_some_iff.mpr ⟨hn, by simpa using hlt⟩
  constructor
  case inserts =>
    intro hop
    exact grows_of_inserts (hedit.inserts (ho.trans hop)) hr hv houtcome hroot
  case removes =>
    intro hop i hn hlt
    obtain ⟨hout, hwritten⟩ := hedit.removes (ho.trans hop) i (hinside i hn hlt)
    rw [Editing.ending, hout] at houtcome
    rw [hr, ← hroot] at hwritten
    exact ⟨houtcome, hwritten⟩
  case changes =>
    intro hni hnr i hn hlt
    have hwritten := hedit.changes (ho ▸ hni) (ho ▸ hnr) i (hinside i hn hlt)
    rwa [hr, ← hroot] at hwritten
  case outside =>
    intro hni hn
    have hbeyond : index.filter (· < items.length) = none := by
      rw [Option.filter_eq_none_iff]
      intro i hsome hlt
      have hle := hn i hsome
      simp at hlt
      omega
    rw [hedit.outside (ho ▸ hni) hbeyond, ho] at houtcome
    rw [hedit.outside (ho ▸ hni) hbeyond, hr] at hroot
    exact ⟨houtcome, hroot⟩

/-- Every edit whose path leads into a list makes of it what its operation says, at the index or the
glob that the path ends at. -/
theorem list_edited {path : FieldPath} {list : Location} {kind : Kind RecordType} {last : String}
    {items : List (Value RecordType)} {index : Option Nat} (ha : stage.Attempted)
    (hp : FieldPath.parse stage.request.path = .ok path)
    (hw : path.LeadsInto stage.target.value stage.contexts ⟨list, .list kind⟩ last)
    (hl : stage.target.value.at? list = some (.list items))
    (hi : Segment.Addresses last index) : stage.EditsList list items kind index last := by
  have hplace : Cursor.place stage.target.value ⟨list, .list kind⟩ last =
      .ok (.element items index kind) := by
    rw [Cursor.place, hl]
    exact hi.place items kind
  obtain ⟨arrived, hc, rfl⟩ := comes_into ha hp hw hplace
  exact hc.editsList

/-- At the first index, far behind the end, and at the glob, where a unit has one number. -/
example :
    let target : Object := ⟨.loose 0, RecordType.numbered.fresh⟩
    ["numbers.0", "numbers.99", "numbers.*"].map (fun path =>
      let turn := (Session.start {} []).1.edit { path, value := "5 !+" } target
      (turn.root.at? [.field "numbers", .index 1]).map Value.text) =
      [some "7", some "5", some "5"] := by
  decide +kernel

/-- A number comes in behind the last one of a row that is a context. -/
theorem row_gains_number :
    let list : Location := [.field "rows", .index 1]
    let s : Session :=
      { settings := {}, tags := [], contexts := ⟨[⟨list, .list .int, "1"⟩]⟩,
        lastFile := some (.object (.loose 0)) }
    let target : Object := ⟨.loose 0, RecordType.sheet.fresh⟩
    let stage : Stage := ⟨s, target, { path := "^.*", value := "7 !+" }⟩
    let path : FieldPath := ⟨1, ["*"]⟩
    stage.Attempted ∧ FieldPath.parse stage.request.path = .ok path ∧
      path.LeadsInto target.value stage.contexts ⟨list, .list .int⟩ "*" ∧
      target.value.at? list = some (.list [.int 2]) ∧ Segment.Addresses "*" none ∧
      stage.EditsList list [.int 2] .int none "*" := by
  intro list s target stage path
  have ha : stage.Attempted := by decide +kernel
  have hp : FieldPath.parse stage.request.path = .ok path := by decide +kernel
  have hw : path.LeadsInto target.value stage.contexts ⟨list, .list .int⟩ "*" := ⟨rfl, _, rfl, rfl⟩
  have hl : target.value.at? list = some (.list [.int 2]) := by rfl
  have hi : Segment.Addresses "*" none := .glob
  exact ⟨ha, hp, hw, hl, hi, list_edited ha hp hw hl hi⟩

end Stage

end FieldPatch
