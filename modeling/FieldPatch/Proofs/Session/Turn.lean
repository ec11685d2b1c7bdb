import FieldPatch.Session

namespace FieldPatch

/-- A unit with a list of numbers, one of them in it from the start. -/
def RecordType.numbered : RecordType :=
  (named "Unit").declare "numbers" ⟨.list .int, some (.list [.int 7])⟩

theorem Settings.report_cases (s : Settings) (d : Diagnostic) :
    s.report d = [] ∨ s.report d = [d] := by
  unfold report
  split
  · exact .inr rfl
  · exact .inl rfl

namespace Session

/-- The session turned to a file, if it is not in it already. -/
def inFile (file : FileId) (s : Session) : Session :=
  if s.lastFile = some file then s else s.turnTo file

/-- The file is latched: the session is in it and skips its edits. -/
def Latched (file : FileId) (s : Session) : Prop :=
  s.lastFile = some file ∧ s.faulted = true ∧ s.settings.latchFaults = true

def isVoid (request : Request) : Bool := request.path.isEmpty || request.value.isEmpty

def afterRun (r : Outcome × Editing) (s : Session) : Session :=
  { s with contexts := r.2.contexts, faulted := r.1.isFault, last := some r.2.progress }

/-- The edit of a request as a session in its file runs it. -/
def runEdit (request : Request) (target : Object) (s : Session) : Outcome × Editing :=
  Editing.run s.settings s.tags (s.inFile (.ofEdit request target.id)).contexts request
    target.value

inductive Handles (request : Request) (target : Object) (s : Session) : Turn → Prop
  | skipped (notes : List Diagnostic) (latched : s.Latched (.ofEdit request target.id)) :
      Handles request target s ⟨.skipped, target.value, s, notes⟩
  | ignored (notes : List Diagnostic) (free : ¬ s.Latched (.ofEdit request target.id))
      (void : isVoid request = true) :
      Handles request target s
        ⟨.ignored, target.value, s.inFile (.ofEdit request target.id), notes⟩
  | ran (notes : List Diagnostic) (free : ¬ s.Latched (.ofEdit request target.id))
      (given : isVoid request = false) :
      Handles request target s ⟨(s.runEdit request target).1, (s.runEdit request target).2.root,
        (s.inFile (.ofEdit request target.id)).afterRun (s.runEdit request target), notes⟩

theorem tags_inFile (file : FileId) (s : Session) : (s.inFile file).tags = s.tags := by
  unfold inFile turnTo
  split <;> rfl

theorem settings_inFile (file : FileId) (s : Session) :
    (s.inFile file).settings = s.settings := by
  unfold inFile turnTo
  split <;> rfl

theorem lastFile_inFile (file : FileId) (s : Session) : (s.inFile file).lastFile = some file := by
  unfold inFile turnTo
  split <;> trivial

/-- What the session reports when it turns to a file, if it is not in it already. -/
def fileNotes (file : FileId) (request : Request) (s : Session) : List Diagnostic :=
  if s.lastFile = some file then [] else s.turnNotes request

theorem turnNotes_cases (s : Session) (request : Request) :
    s.turnNotes request = [] ∨ ∃ lost : Nat,
      s.turnNotes request = [remark .context request s!"new file, discarded {lost} contexts"] := by
  unfold turnNotes
  split
  · exact .inl rfl
  · rcases s.settings.report_cases (remark .context request _) with h | h
    · exact .inl h
    · exact .inr ⟨_, h⟩

/-- What the session reports when it skips an edit. -/
def skipNotes (request : Request) (s : Session) : List Diagnostic :=
  s.settings.report (remark .info request "skipped, an earlier edit to this file faulted")

theorem edit_of_latched {request : Request} {target : Object} {s : Session}
    (h : s.Latched (.ofEdit request target.id)) :
    s.edit request target = ⟨.skipped, target.value, s, s.skipNotes request⟩ := by
  obtain ⟨hl, hf, hs⟩ := h
  have hn : ¬ s.lastFile ≠ some (.ofEdit request target.id) := fun hc => hc hl
  have hb : (s.faulted && s.settings.latchFaults) = true := by rw [hf, hs]; rfl
  rw [edit]
  simp only [if_neg hn, if_pos hb]
  rfl

/-- A file that is not latched is turned to, and then edited. -/
theorem edit_of_free {request : Request} {target : Object} {s : Session}
    (h : ¬ s.Latched (.ofEdit request target.id)) :
    let file := FileId.ofEdit request target.id
    let t := (s.inFile file).editFile request target.value
    s.edit request target = { t with notes := s.fileNotes file request ++ t.notes } := by
  intro file t
  rw [edit]
  by_cases hl : s.lastFile = some file
  · have hn : ¬ s.lastFile ≠ some file := fun hc => hc hl
    have hb : ¬ (s.faulted && s.settings.latchFaults) = true := fun hc =>
      h ⟨hl, by simpa using hc⟩
    have hi : s.inFile file = s := if_pos hl
    simp only [t, hi, fileNotes, if_pos hl, List.nil_append]
    exact (if_neg hn).trans (if_neg hb)
  · have hi : s.inFile file = s.turnTo file := if_neg hl
    simp only [t, hi, fileNotes, if_neg hl]
    exact if_pos hl

theorem editFile_of_void {request : Request} {s : Session} (h : isVoid request = true)
    (root : Value RecordType) : s.editFile request root = ⟨.ignored, root, s, []⟩ := if_pos h

theorem editFile_of_given {request : Request} {s : Session} (h : isVoid request = false)
    (root : Value RecordType) :
    let r := Editing.run s.settings s.tags s.contexts request root
    s.editFile request root = ⟨r.1, r.2.root, s.afterRun r, r.2.notes⟩ :=
  if_neg (Bool.eq_false_iff.mp h)

theorem edit_handles (request : Request) (target : Object) (s : Session) :
    Handles request target s (s.edit request target) := by
  by_cases hl : s.Latched (.ofEdit request target.id)
  · rw [edit_of_latched hl]
    exact .skipped _ hl
  · rw [edit_of_free hl]
    cases hv : isVoid request with
    | true =>
      simp only [editFile_of_void hv]
      exact .ignored _ hl hv
    | false =>
      simp only [editFile_of_given hv, tags_inFile, settings_inFile]
      exact .ran _ hl hv

theorem lastFile_edit (request : Request) (target : Object) (s : Session) :
    (s.edit request target).session.lastFile = some (.ofEdit request target.id) := by
  have hs := s.edit_handles request target
  generalize s.edit request target = t at hs
  cases hs with
  | skipped notes latched => exact latched.1
  | ignored notes free void => exact lastFile_inFile _ s
  | ran notes free given => exact lastFile_inFile _ s

theorem settings_edit (request : Request) (target : Object) (s : Session) :
    (s.edit request target).session.settings = s.settings := by
  have hs := s.edit_handles request target
  generalize s.edit request target = t at hs
  cases hs with
  | skipped notes latched => rfl
  | ignored notes free void => exact settings_inFile _ s
  | ran notes free given => exact settings_inFile _ s

theorem tags_edit (request : Request) (target : Object) (s : Session) :
    (s.edit request target).session.tags = s.tags := by
  have hs := s.edit_handles request target
  generalize s.edit request target = t at hs
  cases hs with
  | skipped notes latched => rfl
  | ignored notes free void => exact tags_inFile _ s
  | ran notes free given => exact tags_inFile _ s

theorem edit_latched {request : Request} {target : Object} {s : Session}
    (h : s.Latched (.ofEdit request target.id)) :
    ∃ notes, s.edit request target = ⟨.skipped, target.value, s, notes⟩ := by
  have hs := s.edit_handles request target
  generalize s.edit request target = t at hs
  cases hs with
  | skipped notes latched => exact ⟨notes, rfl⟩
  | ignored notes free void => contradiction
  | ran notes free given => contradiction

theorem edit_void {request : Request} {target : Object} {s : Session}
    (h : ¬ s.Latched (.ofEdit request target.id)) (hv : isVoid request = true) :
    ∃ notes, s.edit request target =
      ⟨.ignored, target.value, s.inFile (.ofEdit request target.id), notes⟩ := by
  have hs := s.edit_handles request target
  generalize s.edit request target = t at hs
  cases hs with
  | skipped notes latched => contradiction
  | ignored notes free void => exact ⟨notes, rfl⟩
  | ran notes free given => simp [hv] at given

theorem edit_given {request : Request} {target : Object} {s : Session}
    (h : ¬ s.Latched (.ofEdit request target.id)) (hv : isVoid request = false) :
    ∃ notes, s.edit request target =
      ⟨(s.runEdit request target).1, (s.runEdit request target).2.root,
        (s.inFile (.ofEdit request target.id)).afterRun (s.runEdit request target), notes⟩ := by
  have hs := s.edit_handles request target
  generalize s.edit request target = t at hs
  cases hs with
  | skipped notes latched => contradiction
  | ignored notes free void => simp [hv] at void
  | ran notes free given => exact ⟨notes, rfl⟩

end Session

end FieldPatch
