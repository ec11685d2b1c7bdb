import FieldPatch.Proofs.Edit.Steady
import FieldPatch.Proofs.Session.Turn

namespace FieldPatch

/-- The turn ends in the file and comes about by moves; no fault blames a context. -/
structure Turn.Steady (tags : TagTable) (file : FileId) (scene : Scene) (t : Turn) : Prop where
  moves : Scene.Moves tags scene ⟨t.root, t.session.contexts⟩
  tags : t.session.tags = tags
  file : t.session.lastFile = some file
  current : ∀ l, t.outcome ≠ .faulted (.staleContext l)

namespace Session

variable {s : Session} {root : Value RecordType}

/-- The contexts of another file are lost, so only those of the file itself need an anchor. -/
theorem anchored_inFile {file : FileId}
    (h : s.lastFile = some file → s.contexts.Anchored root) :
    (s.inFile file).contexts.Anchored root := by
  rw [inFile]
  split
  · rename_i hl
    exact h hl
  · exact ContextStack.anchored_empty

/-- A session that finds the contexts of the file anchored edits it by moves. -/
theorem edit_steady (request : Request) (target : Object)
    (h : s.lastFile = some (.ofEdit request target.id) → s.contexts.Anchored target.value) :
    (s.edit request target).Steady s.tags (.ofEdit request target.id)
      ⟨target.value, (s.inFile (.ofEdit request target.id)).contexts⟩ := by
  have ha := anchored_inFile h
  have hs := s.edit_handles request target
  generalize s.edit request target = t at hs
  cases hs with
  | skipped notes latched =>
    have hf : s.inFile (.ofEdit request target.id) = s := if_pos latched.1
    rw [hf]
    exact ⟨.refl _, rfl, latched.1, fun l hl => by cases hl⟩
  | ignored notes free void =>
    exact ⟨.refl _, tags_inFile _ s, lastFile_inFile _ s, fun l hl => by cases hl⟩
  | ran notes free given =>
    obtain ⟨hm, hc⟩ := Editing.run_steady s.tags request ha
    refine ⟨hm, tags_inFile _ s, lastFile_inFile _ s, fun l hl => ?_⟩
    have hn := hc _ hl
    contradiction

end Session

end FieldPatch
