import FieldPatch.Proofs.Session.Calls
import Mathlib.Data.List.DropRight
import Mathlib.Data.List.ReduceOption

namespace FieldPatch

/-- What an edit of a file came to. -/
structure Reply where
  file : FileId
  outcome : Outcome

namespace Reply

/-- The file of the last reply; a reset has none. -/
def lastFile? (replies : List (Option Reply)) : Option FileId :=
  replies.getLast?.join.map Reply.file

def isOf (file : FileId) (reply : Option Reply) : Bool := reply.any fun r => r.file = file

/-- The outcomes of the edits since the last change of file or reset. -/
def stretch (replies : List (Option Reply)) : List Outcome :=
  match lastFile? replies with
  | some file => (replies.rtakeWhile (isOf file)).reduceOption.map Reply.outcome
  | none => []

theorem stretch_concat_none (replies : List (Option Reply)) : stretch (replies ++ [none]) = [] := by
  simp [stretch, lastFile?]

theorem stretch_concat_some (replies : List (Option Reply)) (r : Reply) :
    stretch (replies ++ [some r]) =
      (if lastFile? replies = some r.file then stretch replies else []) ++ [r.outcome] := by
  have hl : lastFile? (replies ++ [some r]) = some r.file := by simp [lastFile?]
  have hr : isOf r.file (some r) = true := by simp [isOf]
  simp only [stretch, hl]
  rw [List.rtakeWhile_concat_pos _ _ _ hr, List.reduceOption_append, List.map_append]
  split
  · rename_i hf
    rw [hf]
    rfl
  · rename_i hf
    have hn : replies.rtakeWhile (isOf r.file) = [] := by
      rw [List.rtakeWhile_eq_nil_iff]
      intro hne hc
      cases hq : replies.getLast hne with
      | none =>
        rw [hq] at hc
        contradiction
      | some q =>
        rw [hq] at hc
        refine hf ?_
        rw [lastFile?, List.getLast?_eq_some_getLast hne, hq]
        simpa [isOf] using hc
    rw [hn]
    rfl

end Reply

/-- The latest of these edits that was attempted is a fault. -/
def Outcome.EndInFault (outcomes : List Outcome) : Prop :=
  ∃ outcome, (outcomes.filter Outcome.isAttempt).getLast? = some outcome ∧ outcome.isFault = true

theorem Outcome.not_endInFault_nil : ¬ EndInFault [] := by
  rintro ⟨outcome, h, -⟩
  contradiction

theorem Outcome.endInFault_concat {outcome : Outcome} (h : outcome.isAttempt = true)
    (outcomes : List Outcome) : EndInFault (outcomes ++ [outcome]) ↔ outcome.isFault = true := by
  simp [EndInFault, List.filter_append, h]

theorem Outcome.endInFault_concat_of_not {outcome : Outcome} (h : outcome.isAttempt = false)
    (outcomes : List Outcome) : EndInFault (outcomes ++ [outcome]) ↔ EndInFault outcomes := by
  simp [EndInFault, List.filter_append, h]

theorem Outcome.isSkipped_of_isAttempt {outcome : Outcome} (h : outcome.isAttempt = true) :
    outcome.isSkipped = false := by
  cases outcome with
  | skipped => contradiction
  | _ => rfl

theorem Editing.isAttempt_run {settings : Settings} (tags : TagTable) (contexts : ContextStack)
    (request : Request) (root : Value RecordType) :
    (run settings tags contexts request root).1.isAttempt = true := by
  cases hp : FieldPath.parse request.path with
  | error fault =>
    obtain ⟨ho, -⟩ : (run settings tags contexts request root).1 = .faulted (.path fault) ∧ _ :=
      run_unread hp
    rw [ho]
    rfl
  | ok path =>
    cases hd : path.destination root contexts with
    | error fault =>
      rw [(run_astray hp hd).1]
      rfl
    | ok d =>
      obtain ⟨loss, -, ha⟩ := run_account hp hd
      exact ha.attempt

namespace Session

def reply (s : Session) : Call → Option Reply
  | .edit request target => some ⟨.ofEdit request target.id, (s.edit request target).outcome⟩
  | .reset => none

/-- What a session replies to some calls, in order. -/
def replies (s : Session) : List Call → List (Option Reply)
  | [] => []
  | call :: rest => s.reply call :: (s.serve call).replies rest

theorem replies_concat (s : Session) (calls : List Call) (call : Call) :
    s.replies (calls ++ [call]) = s.replies calls ++ [(s.after calls).reply call] := by
  induction calls generalizing s with
  | nil => rfl
  | cons first rest ih =>
    rw [List.cons_append, replies, ih, replies, List.cons_append]
    rfl

/-- The outcomes of a stretch with the latch on: no fault at first, then perhaps one, and after it
only skipped edits. -/
inductive Latches : Bool → List Outcome → Prop
  | clean {outcomes : List Outcome}
      (clean : ∀ o ∈ outcomes, o.isFault = false ∧ o.isSkipped = false) : Latches false outcomes
  | held {outcomes : List Outcome}
      (clean : ∀ o ∈ outcomes, o.isFault = false ∧ o.isSkipped = false) (fault : Fault) (n : Nat) :
      Latches true (outcomes ++ .faulted fault :: List.replicate n .skipped)

variable {outcomes : List Outcome} {outcome : Outcome} {s : Session} {file : FileId}

theorem Latches.skip (h : Latches true outcomes) : Latches true (outcomes ++ [.skipped]) := by
  cases h with
  | held clean fault n =>
    rw [List.append_assoc, List.cons_append, ← List.replicate_succ']
    exact .held clean fault (n + 1)

theorem Latches.go (h : Latches false outcomes) (hn : outcome.isSkipped = false) :
    Latches outcome.isFault (outcomes ++ [outcome]) := by
  cases h with
  | clean clean =>
    cases hf : outcome.isFault with
    | true =>
      cases outcome with
      | faulted fault => exact .held clean fault 0
      | _ => contradiction
    | false =>
      refine .clean fun o ho => ?_
      rcases List.mem_append.mp ho with ho | ho
      · exact clean o ho
      · rw [List.mem_singleton.mp ho]
        exact ⟨hf, hn⟩

/-- The session is in the state that the outcomes of its stretch tell of. -/
structure Tells (outcomes : List Outcome) (s : Session) : Prop where
  faulted : s.faulted = true ↔ Outcome.EndInFault outcomes
  latches : s.settings.latchFaults = true → Latches s.faulted outcomes

theorem tells_nil (h : s.faulted = false) : s.Tells [] := by
  refine ⟨?_, fun _ => ?_⟩
  · rw [h]
    exact ⟨fun hc => by contradiction, fun hc => absurd hc Outcome.not_endInFault_nil⟩
  · rw [h]
    exact .clean fun o ho => by contradiction

theorem Tells.inFile (h : s.Tells outcomes) (file : FileId) :
    (s.inFile file).Tells (if s.lastFile = some file then outcomes else []) := by
  by_cases hf : s.lastFile = some file
  · rw [if_pos hf, Session.inFile, if_pos hf]
    exact h
  · rw [if_neg hf, Session.inFile, if_neg hf]
    exact tells_nil rfl

theorem Tells.skip (h : s.Tells outcomes) (hl : s.Latched file) :
    s.Tells (outcomes ++ [.skipped]) := by
  refine ⟨?_, fun hs => ?_⟩
  · rw [Outcome.endInFault_concat_of_not rfl, h.faulted]
  · have hp := h.latches hs
    rw [hl.2.1] at hp ⊢
    exact hp.skip

/-- An attempt leaves the session faulted if it faults, an ignored edit leaves it as it was. -/
theorem Tells.go {after : Session} (h : s.Tells outcomes) (hs : after.settings = s.settings)
    (hk : outcome.isSkipped = false) (hl : s.settings.latchFaults = true → s.faulted = false)
    (hf : after.faulted = if outcome.isAttempt then outcome.isFault else s.faulted) :
    after.Tells (outcomes ++ [outcome]) := by
  cases ho : outcome.isAttempt with
  | true =>
    rw [ho, if_pos rfl] at hf
    refine ⟨?_, fun hc => ?_⟩
    · rw [Outcome.endInFault_concat ho, hf]
    · rw [hs] at hc
      have hn := h.latches hc
      rw [hl hc] at hn
      exact hf ▸ hn.go hk
  | false =>
    have hi : outcome.isFault = false := by
      cases outcome with
      | faulted fault => contradiction
      | _ => rfl
    rw [ho, if_neg Bool.false_ne_true] at hf
    refine ⟨?_, fun hc => ?_⟩
    · rw [Outcome.endInFault_concat_of_not ho, hf, h.faulted]
    · rw [hs] at hc
      have hn := h.latches hc
      rw [hl hc] at hn
      rw [hf, hl hc, ← hi]
      exact hn.go hk

/-- A file that is not latched is one in which, with the latch on, nothing has faulted. -/
theorem unfaulted_inFile (h : ¬ s.Latched file)
    (hl : (s.inFile file).settings.latchFaults = true) : (s.inFile file).faulted = false := by
  by_cases hf : s.lastFile = some file
  · rw [Session.inFile, if_pos hf] at hl ⊢
    rw [Bool.eq_false_iff]
    exact fun hc => h ⟨hf, hc, hl⟩
  · rw [Session.inFile, if_neg hf]
    rfl

/-- An edit goes on with the stretch of its file, or begins a new one. -/
theorem Tells.edit (h : s.Tells outcomes) (request : Request) (target : Object) :
    (s.edit request target).session.Tells
      ((if s.lastFile = some (.ofEdit request target.id) then outcomes else []) ++
        [(s.edit request target).outcome]) := by
  have hi := h.inFile (.ofEdit request target.id)
  have hs := s.edit_handles request target
  generalize s.edit request target = t at hs
  cases hs with
  | skipped notes latched =>
    rw [if_pos latched.1]
    exact h.skip latched
  | ignored notes free void => exact hi.go rfl rfl (unfaulted_inFile free) rfl
  | ran notes free given =>
    have ho : (s.runEdit request target).1.isAttempt = true := Editing.isAttempt_run _ _ _ _
    refine hi.go rfl (Outcome.isSkipped_of_isAttempt ho) (unfaulted_inFile free) ?_
    rw [ho, if_pos rfl]
    rfl

/-- After any calls of a new session, its replies tell its state. -/
theorem tells_after (settings : Settings) (tags : TagTable) (calls : List Call) :
    let s := (start settings tags).1
    (s.after calls).lastFile = Reply.lastFile? (s.replies calls) ∧
      (s.after calls).Tells (Reply.stretch (s.replies calls)) := by
  intro s
  induction calls using List.reverseRecOn with
  | nil => exact ⟨rfl, tells_nil rfl⟩
  | append_singleton calls call ih =>
    obtain ⟨hf, ht⟩ := ih
    rw [after_concat, replies_concat]
    cases call with
    | reset =>
      rw [reply, Reply.stretch_concat_none]
      exact ⟨by simp [Reply.lastFile?, serve, reset], tells_nil rfl⟩
    | edit request target =>
      rw [reply, Reply.stretch_concat_some, ← hf]
      refine ⟨?_, ht.edit request target⟩
      rw [serve, lastFile_edit]
      simp [Reply.lastFile?]

/-- While a file is latched, its edits leave the session as it is. -/
theorem Latched.after (h : s.Latched file) {calls : List Call}
    (hc : ∀ call ∈ calls, ∃ request target, call = .edit request target ∧
      FileId.ofEdit request target.id = file) : s.after calls = s := by
  induction calls with
  | nil => rfl
  | cons call rest ih =>
    obtain ⟨request, target, rfl, rfl⟩ := hc call List.mem_cons_self
    obtain ⟨notes, he⟩ := edit_latched h
    have hs : s.serve (.edit request target) = s := by rw [serve, he]
    rw [Session.after, List.foldl_cons, hs]
    exact ih fun c hm => hc c (List.mem_cons_of_mem _ hm)

/-- With the latch on, the file of an edit that faulted is latched. -/
theorem latched_of_fault {request : Request} {target : Object}
    (hl : s.settings.latchFaults = true)
    (hf : (s.edit request target).outcome.isFault = true) :
    (s.edit request target).session.Latched (.ofEdit request target.id) := by
  refine ⟨lastFile_edit request target s, ?_, by rwa [settings_edit]⟩
  have hs := s.edit_handles request target
  generalize s.edit request target = t at hs hf
  cases hs with
  | skipped notes latched => contradiction
  | ignored notes free void => contradiction
  | ran notes free given => exact hf

theorem unskipped_replies (h : s.settings.latchFaults = false) (calls : List Call) :
    ∀ r, some r ∈ s.replies calls → r.outcome.isSkipped = false := by
  induction calls generalizing s with
  | nil => intro r hr; contradiction
  | cons call rest ih =>
    intro r hr
    rcases List.mem_cons.mp hr with he | hr
    · cases call with
      | reset => contradiction
      | edit request target =>
        cases he
        dsimp only
        have hs := s.edit_handles request target
        generalize s.edit request target = t at hs
        cases hs with
        | skipped notes latched => exact absurd latched.2.2 (by simp [h])
        | ignored notes free void => rfl
        | ran notes free given =>
          exact Outcome.isSkipped_of_isAttempt (Editing.isAttempt_run _ _ _ _)
    · exact ih (by rwa [settings_serve]) r hr

/-- What the fault latch does over some calls of a session. -/
structure KeepsLatch (s : Session) (calls : List Call) : Prop where
  /-- The session is faulted if the latest attempt since the last change of file or reset was one
  that faulted. -/
  faulted : (s.after calls).faulted = true ↔ Outcome.EndInFault (Reply.stretch (s.replies calls))
  /-- After a fault, edits of the same file are skipped, and change nothing. -/
  holds : s.settings.latchFaults = true → ∀ request target,
    ((s.after calls).edit request target).outcome.isFault = true → ∀ more : List Call,
    (∀ call ∈ more, ∃ next object, call = .edit next object ∧
      FileId.ofEdit next object.id = .ofEdit request target.id) → ∀ next object,
    FileId.ofEdit next object.id = .ofEdit request target.id →
      let held := ((s.after calls).edit request target).session
      ((held.after more).edit next object).outcome = .skipped ∧
        ((held.after more).edit next object).root = object.value ∧
        ((held.after more).edit next object).session = held
  /-- So a stretch has at most one fault, and only skipped edits after it. -/
  once : s.settings.latchFaults = true →
    Latches (s.after calls).faulted (Reply.stretch (s.replies calls))
  /-- With the latch off, no edit is skipped. -/
  free : s.settings.latchFaults = false →
    ∀ r, some r ∈ s.replies calls → r.outcome.isSkipped = false

theorem keepsLatch_start (settings : Settings) (tags : TagTable) (calls : List Call) :
    KeepsLatch (start settings tags).1 calls := by
  obtain ⟨-, ht⟩ := tells_after settings tags calls
  have hs := settings_after (start settings tags).1 calls
  constructor
  case faulted => exact ht.faulted
  case holds =>
    intro hl request target hf more hm next object hn held
    have hh : held.Latched (.ofEdit request target.id) := latched_of_fault (by rwa [hs]) hf
    obtain ⟨notes, he⟩ := edit_latched (hn.symm ▸ hh)
    rw [hh.after hm, he]
    exact ⟨rfl, rfl, rfl⟩
  case once =>
    intro hl
    exact ht.latches (by rwa [hs])
  case free => exact fun hl => unskipped_replies hl calls

/-- A fault latches its file, until an edit of another one. -/
example :
    let target : Object := ⟨.loose 0, RecordType.sheet.fresh⟩
    let edit (key path : String) : Call := .edit { fileKey := key, path, value := "!^" } target
    let calls := [edit "a" "rows.7", edit "a" "rows", edit "a" "rows", edit "b" "rows"]
    ((start {} []).1.replies calls).map
      (fun r => r.map fun r => (r.outcome.isFault, r.outcome.isSkipped)) =
      [some (true, false), some (false, true), some (false, true), some (false, false)] := by
  decide +kernel

end Session

end FieldPatch
