import FieldPatch.Proofs.Session.Latch
import FieldPatch.Proofs.Session.Trail
import Mathlib.Data.List.Forall2

namespace FieldPatch

namespace Session

/-- The session with another record of its last attempt. -/
def recalling (last : Option Progress) (s : Session) : Session := { s with last }

end Session

namespace Turn

def recalling (last : Option Progress) (turn : Turn) : Turn :=
  { turn with session := turn.session.recalling last }

/-- An attempt leaves a record of its own; other edits leave the one that was there. -/
def inherit (last : Option Progress) (turn : Turn) : Turn :=
  if turn.outcome.isAttempt then turn else turn.recalling last

/-- Both turns come to the same; they can differ in what was reported and is recalled. -/
structure Same (a b : Turn) : Prop where
  outcome : a.outcome = b.outcome
  root : a.root = b.root
  contexts : a.session.contexts = b.session.contexts
  faulted : a.session.faulted = b.session.faulted
  lastFile : a.session.lastFile = b.session.lastFile

theorem same_inherit (last : Option Progress) (turn : Turn) : (turn.inherit last).Same turn := by
  unfold inherit
  split
  · exact ⟨rfl, rfl, rfl, rfl, rfl⟩
  · exact ⟨rfl, rfl, rfl, rfl, rfl⟩

theorem notes_inherit (last : Option Progress) (turn : Turn) :
    (turn.inherit last).notes = turn.notes := by
  unfold inherit
  split
  · rfl
  · rfl

theorem session_inherit (last : Option Progress) (turn : Turn) :
    (turn.inherit last).session =
      if turn.outcome.isAttempt then turn.session else turn.session.recalling last := by
  unfold inherit
  split
  · rfl
  · rfl

/-- The turn with reports before its own. -/
def led (lead : List Diagnostic) (turn : Turn) : Turn := { turn with notes := lead ++ turn.notes }

theorem inherit_led (last : Option Progress) (lead : List Diagnostic) (turn : Turn) :
    (turn.led lead).inherit last = (turn.inherit last).led lead := by
  unfold inherit
  change (if turn.outcome.isAttempt then _ else _) = _
  split
  · rfl
  · rfl

theorem same_modifyHead (lead : List Diagnostic) {turns others : List Turn}
    (h : List.Forall₂ Same turns others) :
    List.Forall₂ Same (turns.modifyHead (led lead)) others := by
  cases h with
  | nil => exact .nil
  | cons head rest =>
    exact .cons ⟨head.outcome, head.root, head.contexts, head.faulted, head.lastFile⟩ rest

theorem session_modifyHead (lead : List Diagnostic) (turns : List Turn) :
    (turns.modifyHead (led lead)).map session = turns.map session := by
  cases turns with
  | nil => rfl
  | cons turn rest => rfl

theorem notes_modifyHead (lead : List Diagnostic) (turns : List Turn) :
    (turns.modifyHead (led lead)).map notes = (turns.map notes).modifyHead (lead ++ ·) := by
  cases turns with
  | nil => rfl
  | cons turn rest => rfl

/-- The turns of a trail as they are if another record was there at its start. -/
def inheritAll (last : Option Progress) : List Turn → List Turn
  | [] => []
  | turn :: rest =>
    turn.inherit last :: if turn.outcome.isAttempt then rest else inheritAll last rest

theorem same_inheritAll (last : Option Progress) (turns : List Turn) :
    List.Forall₂ Same (inheritAll last turns) turns := by
  induction turns with
  | nil => exact .nil
  | cons turn rest ih =>
    refine .cons (same_inherit last turn) ?_
    split
    · exact List.forall₂_same.mpr fun t _ => ⟨rfl, rfl, rfl, rfl, rfl⟩
    · exact ih

theorem notes_inheritAll (last : Option Progress) (turns : List Turn) :
    (inheritAll last turns).map notes = turns.map notes := by
  induction turns with
  | nil => rfl
  | cons turn rest ih =>
    rw [inheritAll, List.map_cons, List.map_cons, notes_inherit]
    split
    · rfl
    · rw [ih]

/-- From the first attempt on, it makes no difference which record was there before. -/
theorem getElem?_inheritAll (last : Option Progress) {turns : List Turn} {n : Nat}
    (h : (turns.take (n + 1)).any (fun turn => turn.outcome.isAttempt) = true) :
    (inheritAll last turns)[n]? = turns[n]? := by
  induction turns generalizing n with
  | nil => rfl
  | cons turn rest ih =>
    rw [inheritAll]
    by_cases ha : turn.outcome.isAttempt = true
    · rw [if_pos ha, inherit, if_pos ha]
    · rw [if_neg ha]
      rw [List.take_succ_cons, List.any_cons, Bool.or_eq_true] at h
      have hr := h.resolve_left ha
      cases n with
      | zero => contradiction
      | succ n => exact ih hr

end Turn

namespace Session

variable {s : Session}

theorem recalling_inFile (last : Option Progress) (file : FileId) :
    (s.recalling last).inFile file = (s.inFile file).recalling last := by
  unfold inFile
  change (if s.lastFile = some file then _ else _) = _
  split
  · rfl
  · rfl

theorem editFile_recalling (last : Option Progress) (request : Request) (root : Value RecordType) :
    (s.recalling last).editFile request root = (s.editFile request root).inherit last := by
  cases hv : isVoid request with
  | true =>
    rw [editFile_of_void hv, editFile_of_void hv]
    rfl
  | false =>
    have ha : (Editing.run s.settings s.tags s.contexts request root).1.isAttempt = true :=
      Editing.isAttempt_run _ _ _ _
    rw [editFile_of_given hv, editFile_of_given hv]
    exact (if_pos ha).symm

/-- No edit reads the record of the last attempt. -/
theorem edit_recalling (last : Option Progress) (request : Request) (target : Object) :
    (s.recalling last).edit request target = (s.edit request target).inherit last := by
  by_cases hl : s.Latched (.ofEdit request target.id)
  · have hr : (s.recalling last).Latched (.ofEdit request target.id) := hl
    rw [edit_of_latched hl, edit_of_latched hr]
    rfl
  · have hr : ¬ (s.recalling last).Latched (.ofEdit request target.id) := hl
    have hf := editFile_recalling (s := s.inFile (.ofEdit request target.id)) last request
      target.value
    rw [edit_of_free hl, edit_of_free hr]
    simp only [recalling_inFile, hf]
    exact (Turn.inherit_led last (s.fileNotes (.ofEdit request target.id) request) _).symm

theorem trail_recalling (last : Option Progress) (target : Object) (requests : List Request) :
    (s.recalling last).trail target requests = Turn.inheritAll last (s.trail target requests) := by
  induction requests generalizing s target with
  | nil => rfl
  | cons request rest ih =>
    let turn := s.edit request target
    have he := edit_recalling (s := s) last request target
    have hr := (Turn.same_inherit last turn).root
    simp only [trail, he, Turn.inheritAll]
    refine congrArg _ ?_
    rw [hr, Turn.session_inherit]
    split
    · rfl
    · exact ih _

theorem edit_afresh {request : Request} {target : Object}
    (h : s.lastFile ≠ some (.ofEdit request target.id)) :
    s.edit request target =
      (((start s.settings s.tags).1.edit request target).inherit s.last).led
        (s.turnNotes request) := by
  let fresh := (start s.settings s.tags).1
  let file := FileId.ofEdit request target.id
  have hf := editFile_recalling (s := fresh.turnTo file) s.last request target.value
  have hs : s.edit request target =
      ((s.turnTo file).editFile request target.value).led (s.turnNotes request) := if_pos h
  have hn : fresh.edit request target =
      ((fresh.turnTo file).editFile request target.value).led [] := rfl
  rw [hs]
  -- Turned to the file, both sessions are the same but for their records.
  change (((fresh.turnTo file).recalling s.last).editFile request target.value).led _ =
    ((fresh.edit request target).inherit s.last).led _
  rw [hf, hn]
  rfl

/-- A trail on another file is that of a new session, but for a note before its first turn and the
record of the last attempt before its first attempt. -/
theorem trail_afresh {first : Request} {target : Object}
    (h : s.lastFile ≠ some (.ofEdit first target.id)) (rest : List Request) :
    s.trail target (first :: rest) =
      (Turn.inheritAll s.last ((start s.settings s.tags).1.trail target (first :: rest))).modifyHead
        (Turn.led (s.turnNotes first)) := by
  let fresh := (start s.settings s.tags).1
  have hr := (Turn.same_inherit s.last (fresh.edit first target)).root
  have hs := Turn.session_inherit s.last (fresh.edit first target)
  simp only [trail, edit_afresh h, Turn.inheritAll, List.modifyHead_cons]
  refine congrArg _ ?_
  change ((fresh.edit first target).inherit s.last).session.trail
    { target with value := ((fresh.edit first target).inherit s.last).root } rest = _
  rw [hr, hs]
  split
  · rfl
  · exact trail_recalling _ _ _

/-- Whatever a session did before, a trail that starts on another file is as in a new session: edit
by edit, it comes to the same and reports the same, but for a note on lost contexts at its start.
From the first attempt on, the sessions are the same altogether. -/
theorem trail_forgets (s : Session) (target : Object) (first : Request) (rest : List Request)
    (h : s.lastFile ≠ some (.ofEdit first target.id)) :
    let old := s.trail target (first :: rest)
    let new := (start s.settings s.tags).1.trail target (first :: rest)
    List.Forall₂ Turn.Same old new ∧
      (∀ n : Nat, (new.take (n + 1)).any (fun turn => turn.outcome.isAttempt) = true →
        (old.map Turn.session)[n]? = (new.map Turn.session)[n]?) ∧
      ∃ lead, (lead = [] ∨ ∃ lost : Nat,
          lead = [remark .context first s!"new file, discarded {lost} contexts"]) ∧
        old.map Turn.notes = (new.map Turn.notes).modifyHead (lead ++ ·) := by
  intro old new
  let lead := s.turnNotes first
  have ho : old = (Turn.inheritAll s.last new).modifyHead (Turn.led lead) := trail_afresh h rest
  rw [ho]
  refine ⟨Turn.same_modifyHead lead (Turn.same_inheritAll s.last new), ?_, lead, ?_, ?_⟩
  · intro n hn
    rw [Turn.session_modifyHead, List.getElem?_map, Turn.getElem?_inheritAll s.last hn,
      List.getElem?_map]
  · exact turnNotes_cases s first
  · rw [Turn.notes_modifyHead, Turn.notes_inheritAll]

/-- A session with a context and a fault in one file, and then edits of a loose unit: one that is
ignored, one that inserts a number, and one that would need that context. -/
theorem numbers_forget_sheet :
    let settings := Settings.verbose
    let sheet : Object := ⟨.loose 0, RecordType.sheet.fresh⟩
    let unit : Object := ⟨.loose 1, RecordType.numbered.fresh⟩
    let s := (start settings []).1.after
      [.edit { fileKey := "a", path := "rows.0", value := "!^" } sheet,
        .edit { fileKey := "a", path := "rows.7", value := "!^" } sheet]
    let first : Request := { path := "numbers" }
    let rest : List Request :=
      [{ path := "numbers.0", value := "8 !+" }, { path := "^.0", value := "8 !+" }]
    let old := s.trail unit (first :: rest)
    let new := (start s.settings s.tags).1.trail unit (first :: rest)
    s.faulted = true ∧ s.contexts.size = 1 ∧ s.lastFile ≠ some (.ofEdit first unit.id) ∧
      old.map (fun turn => turn.notes.length) = [1, 2, 1] ∧
      new.map (fun turn => turn.notes.length) = [0, 2, 1] ∧ List.Forall₂ Turn.Same old new := by
  intro settings sheet unit s first rest old new
  have hf : s.faulted = true := by decide +kernel
  have hc : s.contexts.size = 1 := by decide +kernel
  have hn : s.lastFile ≠ some (.ofEdit first unit.id) := by decide +kernel
  have ho : old.map (fun turn => turn.notes.length) = [1, 2, 1] := by decide +kernel
  have hw : new.map (fun turn => turn.notes.length) = [0, 2, 1] := by decide +kernel
  exact ⟨hf, hc, hn, ho, hw, (trail_forgets s unit first rest hn).1⟩

end Session

end FieldPatch
