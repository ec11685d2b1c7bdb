import FieldPatch.Proofs.Edit.Frame
import FieldPatch.Proofs.Session.Calls

namespace FieldPatch

namespace Stage

variable {stage : Stage}

/-- Where no place is come to, nothing changes. -/
theorem still_of_lost (h : stage.destination? = none) : stage.turn.root = stage.target.value := by
  cases stage.course with
  | passed unread root => exact root
  | astray read leads outcome root => exact root
  | arrived read leads =>
    rw [destination?_of_read read, leads] at h
    contradiction

theorem framed_of_destination {d : Destination} (h : stage.destination? = some d) :
    stage.target.value.Framed (d.scope stage.op) stage.turn.root := by
  cases stage.course with
  | passed unread =>
    rw [destination?, unread] at h
    contradiction
  | astray read leads =>
    rw [destination?_of_read read, leads] at h
    contradiction
  | arrived read leads change =>
    rw [destination?_of_read read, leads] at h
    cases h
    exact change.framed (FieldPath.held_of_destination leads)

/-- The place that the edit addresses, if its path leads to one. -/
def scope? (stage : Stage) : Option Location :=
  stage.destination?.map (Destination.scope stage.op)

/-- However an edit ends, all that lies apart from the place that it addresses is as it was, and the
containers around that place keep their form. Without such a place the config is as it was. -/
theorem turn_framed (stage : Stage) :
    (stage.scope? = none → stage.turn.root = stage.target.value) ∧
      ∀ scope, stage.scope? = some scope → stage.target.value.Framed scope stage.turn.root := by
  constructor
  · intro hn
    exact still_of_lost (Option.map_eq_none_iff.mp hn)
  · intro scope hs
    obtain ⟨d, hd, rfl⟩ := Option.map_eq_some_iff.mp hs
    exact framed_of_destination hd

/-- A row comes into a sheet before the text for it is refused: the rows are another list then, and
the sheet is still a sheet. Behind the last row nothing is found and nothing changes. -/
theorem sheet_framed :
    let session := (Session.start {} []).1
    let target : Object := ⟨.loose 0, RecordType.sheet.fresh⟩
    let refused : Stage := ⟨session, target, { path := "rows.0", value := "5 !+" }⟩
    let lost : Stage := ⟨session, target, { path := "rows.2.0", value := "5" }⟩
    refused.turn.outcome.isFault = true ∧ lost.turn.outcome.isFault = true ∧
      refused.scope? = some [.field "rows"] ∧
      target.value.Framed [.field "rows"] refused.turn.root ∧
      lost.scope? = none ∧ lost.turn.root = target.value := by
  intro session target refused lost
  have hr : refused.scope? = some [.field "rows"] := by decide +kernel
  have hl : lost.scope? = none := by decide +kernel
  exact ⟨by decide +kernel, by decide +kernel, hr, (turn_framed refused).2 _ hr, hl,
    (turn_framed lost).1 hl⟩

end Stage

end FieldPatch
