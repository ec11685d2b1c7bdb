import FieldPatch.Proofs.Edit.Told
import FieldPatch.Proofs.Session.Latch

namespace FieldPatch

/-- The notes tell what an edit came to that took a config from `before` to `after`. -/
structure Told (before : Value RecordType) (outcome : Outcome) (after : Value RecordType)
    (notes : List Diagnostic) : Prop where
  /-- A fault is the last thing reported, and the only one on its channel. -/
  fault : ∀ fault, outcome = .faulted fault → ∃ earlier d, notes = earlier ++ [d] ∧
    d.channel = .fault ∧ d.detail = fault.message ∧ ∀ n ∈ earlier, n.channel ≠ .fault
  faultless : outcome.isFault = false → ∀ n ∈ notes, n.channel ≠ .fault
  change : after ≠ before → ∃ n ∈ notes, n.channel = .info ∧ n.verb = .edits
  idle : outcome = .noOp ∨ outcome = .skipped →
    ∃ d, Diagnostic.on .info notes = [d] ∧ d.verb = .attempts
  silent : outcome = .ignored ∨ outcome = .contextSet → ∀ n ∈ notes, n.channel ≠ .info

namespace Diagnostic

variable {channel : Channel} {notes : List Diagnostic}

theorem exists_of_mem_verbs {verb : Verb} (h : verb ∈ (on channel notes).map Diagnostic.verb) :
    ∃ n ∈ notes, n.channel = channel ∧ n.verb = verb := by
  obtain ⟨n, hn, hv⟩ := List.mem_map.mp h
  obtain ⟨hm, hc⟩ := List.mem_filter.mp hn
  exact ⟨n, hm, by simpa using hc, hv⟩

end Diagnostic

/-- Reports on contexts tell nothing of the edit itself. -/
theorem Told.behind {before after : Value RecordType} {outcome : Outcome}
    {lead notes : List Diagnostic} (h : Told before outcome after notes)
    (hl : ∀ n ∈ lead, n.channel = .context) : Told before outcome after (lead ++ notes) := by
  have hn (channel : Channel) (hc : Channel.context ≠ channel) :
      Diagnostic.on channel lead = [] :=
    Diagnostic.on_eq_nil.mpr fun n hm => hl n hm ▸ hc
  constructor
  case fault =>
    intro fault ho
    obtain ⟨earlier, d, rfl, hc, hd, he⟩ := h.fault fault ho
    refine ⟨lead ++ earlier, d, (List.append_assoc _ _ _).symm, hc, hd, fun n hm => ?_⟩
    rcases List.mem_append.mp hm with hm | hm
    · rw [hl n hm]
      decide
    · exact he n hm
  case faultless =>
    intro ho
    rw [← Diagnostic.on_eq_nil, Diagnostic.on_append, hn .fault (by decide), List.nil_append]
    exact Diagnostic.on_eq_nil.mpr (h.faultless ho)
  case change =>
    intro hc
    obtain ⟨n, hm, hn⟩ := h.change hc
    exact ⟨n, List.mem_append_right lead hm, hn⟩
  case idle =>
    intro ho
    rw [Diagnostic.on_append, hn .info (by decide), List.nil_append]
    exact h.idle ho
  case silent =>
    intro ho
    rw [← Diagnostic.on_eq_nil, Diagnostic.on_append, hn .info (by decide), List.nil_append]
    exact Diagnostic.on_eq_nil.mpr (h.silent ho)

namespace Editing

variable {settings : Settings} {tags : TagTable} {contexts : ContextStack} {request : Request}
  {root : Value RecordType} {verbs : List Verb} {done : Editing}

theorem told_of_ok {outcome : Outcome} (hl : settings.Loud) (ha : outcome.isAttempt = true)
    (h : Reported verbs { settings, request, root, contexts } (.ok outcome, done)) :
    Told root outcome done.root done.notes := by
  have hf : Diagnostic.on .fault done.notes = [] := h.tells.fault
  have hv : (Diagnostic.on .info done.notes).map Diagnostic.verb = verbs := h.tells.info hl
  constructor
  case fault =>
    rintro fault rfl
    have hn := h.sound _ rfl
    contradiction
  case faultless => exact fun _ => Diagnostic.on_eq_nil.mp hf
  case change => exact fun hc => Diagnostic.exists_of_mem_verbs (hv.symm ▸ h.change hc)
  case idle =>
    rintro (rfl | rfl)
    · rw [h.noOp rfl] at hv
      exact List.map_eq_singleton_iff.mp hv
    · contradiction
  case silent =>
    rintro (rfl | rfl)
    · contradiction
    · rw [h.contextSet rfl, List.map_eq_nil_iff] at hv
      exact Diagnostic.on_eq_nil.mp hv

theorem told_of_error {fault : Fault} (hl : settings.Loud)
    (h : Reported verbs { settings, request, root, contexts } (.error fault, done)) :
    Told root (.faulted fault) done.root (done.refuse fault.message).notes := by
  have hs : done.settings.Loud := h.tells.settings ▸ hl
  have hf : Diagnostic.on .fault done.notes = [] := h.tells.fault
  have hv : (Diagnostic.on .info done.notes).map Diagnostic.verb = verbs := h.tells.info hl
  rw [refuse, hs.report]
  constructor
  case fault =>
    intro other ho
    cases ho
    exact ⟨done.notes, _, rfl, rfl, rfl, Diagnostic.on_eq_nil.mp hf⟩
  case faultless => exact fun ho => by contradiction
  case change =>
    intro hc
    obtain ⟨n, hm, hn⟩ := Diagnostic.exists_of_mem_verbs (hv.symm ▸ h.change hc)
    exact ⟨n, List.mem_append_left _ hm, hn⟩
  case idle => exact fun ho => by simp at ho
  case silent => exact fun ho => by simp at ho

/-- An edit that is run tells what it comes to. -/
theorem run_told (hl : settings.Loud) (tags : TagTable) (contexts : ContextStack)
    (request : Request) (root : Value RecordType) :
    let r := run settings tags contexts request root
    Told root r.1 r.2.root r.2.notes := by
  have ha : (run settings tags contexts request root).1.isAttempt = true := isAttempt_run _ _ _ _
  obtain ⟨verbs, h⟩ := attempt_reported { settings, request, root, contexts } tags
  simp only [run] at ha ⊢
  generalize attempt tags { settings, request, root, contexts } = r at h ha
  obtain ⟨(fault | outcome), done⟩ := r
  · exact told_of_error hl h
  · exact told_of_ok hl ha h

end Editing

namespace Session

variable {s : Session}

theorem editFile_told (hl : s.settings.Loud) (request : Request) (root : Value RecordType) :
    let turn := s.editFile request root
    Told root turn.outcome turn.root turn.notes := by
  cases hv : isVoid request with
  | true =>
    rw [editFile_of_void hv]
    exact ⟨nofun, nofun, fun hc => absurd rfl hc, by simp, nofun⟩
  | false =>
    rw [editFile_of_given hv]
    exact Editing.run_told hl s.tags s.contexts request root

theorem channel_of_fileNotes {file : FileId} {request : Request} :
    ∀ n ∈ s.fileNotes file request, n.channel = .context := by
  unfold fileNotes
  split
  · exact fun n hn => by contradiction
  · intro n hn
    rcases s.turnNotes_cases request with h | ⟨lost, h⟩
    · rw [h] at hn
      contradiction
    · rw [h] at hn
      rw [List.mem_singleton.mp hn]
      rfl

/-- With all channels on, an edit faults loudly, and changes nothing without a word. -/
theorem edit_told (s : Session) (hl : ∀ c : Channel, s.settings.channelEnabled c = true)
    (request : Request) (target : Object) :
    let turn := s.edit request target
    Told target.value turn.outcome turn.root turn.notes := by
  by_cases hs : s.Latched (.ofEdit request target.id)
  · have hn : s.skipNotes request =
        [remark .info request "skipped, an earlier edit to this file faulted"] := if_pos (hl .info)
    rw [edit_of_latched hs, hn]
    constructor
    case fault => exact nofun
    case faultless =>
      intro _ n hm
      rw [List.mem_singleton.mp hm]
      exact nofun
    case change => exact fun hc => absurd rfl hc
    case idle => exact fun _ => ⟨_, rfl, rfl⟩
    case silent => exact fun ho => by simp at ho
  · have hi : (s.inFile (.ofEdit request target.id)).settings.Loud := by
      rw [settings_inFile]
      exact hl
    rw [edit_of_free hs]
    exact (editFile_told hi request target.value).behind channel_of_fileNotes

/-- A text that is no number is refused where a number was to be added; the new entry stays, and is
reported before the fault. -/
theorem numbers_edit_told :
    let s := (start .verbose []).1
    let request : Request := { path := "numbers.*", value := "abc !+" }
    let target : Object := ⟨.loose 0, RecordType.numbered.fresh⟩
    let turn := s.edit request target
    (∀ c : Channel, s.settings.channelEnabled c = true) ∧ turn.outcome.isFault = true ∧
      turn.root ≠ target.value ∧
      turn.notes.map (fun n => (n.channel, n.verb)) = [(.info, .edits), (.fault, .attempts)] ∧
      Told target.value turn.outcome turn.root turn.notes := by
  intro s request target turn
  have hl : ∀ c : Channel, s.settings.channelEnabled c = true := by
    intro c
    cases c <;> rfl
  have hf : turn.outcome.isFault = true := by decide +kernel
  have hn : turn.notes.map (fun n => (n.channel, n.verb)) =
      [(.info, .edits), (.fault, .attempts)] := by
    decide +kernel
  have hr : turn.root ≠ target.value := by
    intro hc
    have ha : (turn.root.at? [.field "numbers", .index 1]).isSome = true := by decide +kernel
    have hb : (target.value.at? [.field "numbers", .index 1]).isSome = false := by decide +kernel
    rw [hc, hb] at ha
    contradiction
  exact ⟨hl, hf, hr, hn, edit_told s hl request target⟩

end Session

end FieldPatch
