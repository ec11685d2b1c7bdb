import FieldPatch.Proofs.Edit.Effect
import FieldPatch.Proofs.Session.Arrival

namespace FieldPatch

namespace Stage

/-- An edit of the same config, right after. -/
def next (stage : Stage) (request : Request) : Stage :=
  ⟨stage.turn.session, ⟨stage.target.id, stage.turn.root⟩, request⟩

variable {stage : Stage} {path : FieldPath} {d : Destination}

theorem tags_next (stage : Stage) (request : Request) :
    (stage.next request).session.tags = stage.session.tags :=
  Session.tags_edit stage.request stage.target stage.session

/-- After an edit that went through or was ignored, no file is latched. -/
theorem free_next (hfree : ¬ stage.session.Latched (.ofEdit stage.request stage.target.id))
    (hf : stage.turn.outcome.isFault = false) (file : FileId) :
    ¬ stage.turn.session.Latched file := by
  cases hv : Session.isVoid stage.request with
  | true =>
    obtain ⟨notes, he⟩ := Session.edit_void hfree hv
    have ht : stage.turn = _ := he
    rw [ht]
    rintro ⟨hl, hlatched⟩
    rw [Session.lastFile_inFile] at hl
    cases hl
    unfold Session.inFile at hlatched
    split at hlatched
    · rename_i hin
      exact hfree ⟨hin, hlatched⟩
    · cases hlatched.1
  | false =>
    obtain ⟨notes, he⟩ := Session.edit_given hfree hv
    have ht : stage.turn = _ := he
    have hfaulted : stage.turn.session.faulted = stage.turn.outcome.isFault := by rw [ht]; rfl
    rintro ⟨-, hlatched, -⟩
    rw [hfaulted, hf] at hlatched
    contradiction

/-- The same value is asked of a slot in the same way, where the paths end at the same segment. -/
theorem Comes.asks_again {stage' : Stage} {d' : Destination} {arrived arrived' : Editing}
    (h : stage.Comes path d arrived) (h' : stage'.Comes path d' arrived')
    (hv : stage'.request.value = stage.request.value)
    (hs : path.lastSegment? stage'.contexts = path.lastSegment? stage.contexts) :
    arrived'.asks = arrived.asks := by
  have hop : arrived'.progress.op = arrived.progress.op := by
    rw [h.arrives.op, h'.arrives.op, hv]
  have hvalue : arrived'.progress.value = arrived.progress.value := by
    rw [h.arrives.value, h'.arrives.value, hv]
  have hsegment : arrived'.progress.segment = arrived.progress.segment :=
    Option.some.inj (h'.segment.symm.trans (hs.trans h.segment))
  rw [Editing.asks, Editing.asks, hop, hvalue, hsegment]

end Stage

end FieldPatch
