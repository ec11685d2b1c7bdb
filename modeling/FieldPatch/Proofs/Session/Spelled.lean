import FieldPatch.Proofs.Edit.Spelled
import FieldPatch.Proofs.Session.Stage
import FieldPatch.Proofs.Session.Trail

namespace FieldPatch

namespace Stage

/-- The request with its context spelled out, if the edit is attempted. -/
def spellOut (stage : Stage) : Request :=
  if stage.Attempted then stage.request.spellOut stage.contexts else stage.request

/-- The context that an attempted edit refers to is there and can be spelled out: the path does not
get too long, and no list of the config is too long. -/
structure Spellable (stage : Stage) : Prop where
  indexable : stage.target.value.Indexable
  refers : stage.Attempted → ∀ path, FieldPath.parse stage.request.path = .ok path →
    path.usesContext = true → ∃ context, stage.contexts.get? path.contextDepth = some context ∧
      (Segment.split (path.spelled context)).length ≤ PathFault.maxSegments

end Stage

theorem Request.fileKey_spellOut (contexts : ContextStack) (request : Request) :
    (request.spellOut contexts).fileKey = request.fileKey := by
  rw [spellOut]
  split
  · rfl
  · split
    · rfl
    · rfl

theorem Request.value_spellOut (contexts : ContextStack) (request : Request) :
    (request.spellOut contexts).value = request.value := by
  rw [spellOut]
  split
  · rfl
  · split
    · rfl
    · rfl

theorem Request.isVoid_spellOut {contexts : ContextStack} {request : Request}
    {root : Value RecordType} (ha : contexts.Anchored root)
    (h : Session.isVoid request = false) : Session.isVoid (request.spellOut contexts) = false := by
  rw [Session.isVoid] at h ⊢
  rw [value_spellOut]
  simp only [Bool.or_eq_false_iff] at h ⊢
  refine ⟨?_, h.2⟩
  rw [spellOut]
  split
  · exact h.1
  · rename_i path hp
    split
    · exact h.1
    · rename_i context hg
      have hn := FieldPath.spelled_ne_empty (ha context (ContextStack.mem_of_get? hg))
        (FieldPath.plain_of_parse hp)
      simpa using hn

theorem FileId.ofEdit_spellOut (contexts : ContextStack) (request : Request) (id : ObjectId) :
    ofEdit (request.spellOut contexts) id = ofEdit request id := by
  simp only [ofEdit]
  rw [Request.fileKey_spellOut]

namespace Session

def stages (s : Session) (target : Object) : List Request → List Stage
  | [] => []
  | request :: rest =>
    let t := s.edit request target
    ⟨s, target, request⟩ :: t.session.stages { target with value := t.root } rest

/-- The sessions differ in their contexts at most, and in what they know of the last edit. -/
structure Twin (s s' : Session) : Prop where
  settings : s'.settings = s.settings
  tags : s'.tags = s.tags
  lastFile : s'.lastFile = s.lastFile
  faulted : s'.faulted = s.faulted

variable {s s' : Session}

theorem Twin.latched_iff (h : s.Twin s') (file : FileId) :
    s'.Latched file ↔ s.Latched file := by
  simp only [Latched]
  rw [h.lastFile, h.faulted, h.settings]

theorem Twin.inFile (h : s.Twin s') (file : FileId) : (s.inFile file).Twin (s'.inFile file) := by
  simp only [Session.inFile]
  rw [h.lastFile]
  split
  · exact h
  · exact ⟨h.settings, h.tags, rfl, rfl⟩

theorem Twin.afterRun (h : s.Twin s') {r r' : Outcome × Editing} (hr : r'.1 = r.1) :
    (s.afterRun r).Twin (s'.afterRun r') :=
  ⟨h.settings, h.tags, h.lastFile, congrArg Outcome.isFault hr⟩

structure Matches (t t' : Turn) : Prop where
  outcome : t'.outcome = t.outcome
  root : t'.root = t.root
  session : t.session.Twin t'.session

theorem Twin.edit (h : s.Twin s') {request : Request} {target : Object}
    (ha : s.contexts.Anchored target.value) (hs : Stage.Spellable ⟨s, target, request⟩) :
    Matches (s.edit request target)
      (s'.edit (Stage.spellOut ⟨s, target, request⟩) target) := by
  rw [Stage.spellOut]
  by_cases hl : s.Latched (.ofEdit request target.id)
  · have hn : ¬ Stage.Attempted ⟨s, target, request⟩ := fun hc => hc.1 hl
    have hl' := (h.latched_iff _).mpr hl
    obtain ⟨notes, he⟩ := edit_latched hl
    obtain ⟨notes', he'⟩ := edit_latched hl'
    rw [if_neg hn, he, he']
    exact ⟨rfl, rfl, h⟩
  · have hl' : ¬ s'.Latched (.ofEdit request target.id) := fun hc => hl ((h.latched_iff _).mp hc)
    cases hv : isVoid request with
    | true =>
      have hn : ¬ Stage.Attempted ⟨s, target, request⟩ := fun hc =>
        Bool.noConfusion (hv.symm.trans hc.2)
      obtain ⟨notes, he⟩ := edit_void hl hv
      obtain ⟨notes', he'⟩ := edit_void hl' hv
      rw [if_neg hn, he, he']
      exact ⟨rfl, rfl, h.inFile _⟩
    | false =>
      have hm : Stage.Attempted ⟨s, target, request⟩ := ⟨hl, hv⟩
      have hc : (Stage.contexts ⟨s, target, request⟩).Anchored target.value :=
        anchored_inFile fun _ => ha
      have hf := FileId.ofEdit_spellOut (Stage.contexts ⟨s, target, request⟩) request target.id
      have hr : Editing.SameEnd (s.runEdit request target)
          (s'.runEdit (request.spellOut (Stage.contexts ⟨s, target, request⟩)) target) := by
        simp only [runEdit]
        rw [h.settings, h.tags]
        exact Editing.run_spellOut s.tags _ hc hs.indexable (hs.refers hm)
      obtain ⟨notes, he⟩ := edit_given hl hv
      obtain ⟨notes', he'⟩ := edit_given (by rwa [hf]) (Request.isVoid_spellOut hc hv)
      rw [if_pos hm, he, he', hf]
      exact ⟨hr.ending, hr.root, (h.inFile _).afterRun hr.ending⟩

theorem Twin.trail (h : s.Twin s') {target : Object} {requests : List Request}
    (ha : s.contexts.Anchored target.value)
    (hs : ∀ stage ∈ s.stages target requests, stage.Spellable) :
    (s'.trail target ((s.stages target requests).map Stage.spellOut)).map
        (fun t => (t.outcome, t.root)) =
      (s.trail target requests).map fun t => (t.outcome, t.root) := by
  induction requests generalizing s s' target with
  | nil => rfl
  | cons request rest ih =>
    obtain ⟨ho, hr, ht⟩ := h.edit ha (hs _ List.mem_cons_self)
    have hn := ih ht (edit_anchored request ha) fun stage hm => hs stage (List.mem_cons_of_mem _ hm)
    simp only [stages, List.map_cons, Session.trail]
    rw [ho, hr, hn]

/-- A context reference is an abbreviation: with every context of a new session's trail spelled out,
the edits have the same outcomes, step by step, and make the same of the config. -/
theorem trail_spellOut (settings : Settings) (tags : TagTable) (target : Object)
    (requests : List Request)
    (hs : ∀ stage ∈ (start settings tags).1.stages target requests, stage.Spellable) :
    ((start settings tags).1.trail target
        (((start settings tags).1.stages target requests).map Stage.spellOut)).map
        (fun t => (t.outcome, t.root)) =
      ((start settings tags).1.trail target requests).map fun t => (t.outcome, t.root) := by
  have ht : Twin (start settings tags).1 (start settings tags).1 := ⟨rfl, rfl, rfl, rfl⟩
  exact ht.trail ContextStack.anchored_empty hs

end Session

/-- The path of the request has no markers, or spelled out it is short enough. -/
def Stage.refersShort (stage : Stage) : Bool :=
  match FieldPath.parse stage.request.path with
  | .error _ => true
  | .ok path => !path.usesContext || (stage.contexts.get? path.contextDepth).any fun context =>
      (Segment.split (path.spelled context)).length ≤ PathFault.maxSegments

theorem Stage.Spellable.of_refersShort {stage : Stage} (hx : stage.target.value.Indexable)
    (h : stage.refersShort = true) : stage.Spellable := by
  refine ⟨hx, fun _ path hp hu => ?_⟩
  simp only [refersShort, hp, hu, Bool.not_true, Bool.false_or] at h
  cases hg : stage.contexts.get? path.contextDepth with
  | none => simp [hg] at h
  | some context => exact ⟨context, rfl, by simpa [hg] using h⟩

theorem RecordType.numbered_indexable : numbered.fresh.Indexable := by
  have hn : (.int 7 : Value RecordType).Indexable := by
    refine .of_child? (fun items h => by contradiction) fun step child h => ?_
    cases step <;> contradiction
  have hl : (.list [.int 7] : Value RecordType).Indexable := by
    refine .of_child? (fun items h => ?_) fun step child h => ?_
    · cases h
      decide
    · cases step with
      | index i =>
        obtain rfl := List.mem_singleton.mp (List.mem_of_getElem? h)
        exact hn
      | field name => contradiction
      | key key => contradiction
  refine .of_child? (fun items h => by contradiction) fun step child h => ?_
  cases step with
  | field name =>
    have h : (if "numbers" = name then some (.list [.int 7]) else none) = some child := h
    split at h
    · cases h
      exact hl
    · contradiction
  | index i => contradiction
  | key key => contradiction

/-- The list of a unit becomes a context, and the first number in it is written from there. -/
theorem Session.numbers_spellOut :
    let s := (Session.start {} []).1
    let target : Object := ⟨.loose 0, RecordType.numbered.fresh⟩
    let requests : List Request :=
      [{ path := "numbers", value := "!^" }, { path := "^.0", value := "9" }]
    let stages := s.stages target requests
    (∀ stage ∈ stages, stage.Spellable) ∧
      stages.map (fun stage => stage.spellOut.path) = ["numbers", "numbers.0"] ∧
      (s.trail target (stages.map Stage.spellOut)).map (fun t => (t.outcome, t.root)) =
        (s.trail target requests).map fun t => (t.outcome, t.root) := by
  intro s target requests stages
  have hr : ((Session.start {} []).1.edit { path := "numbers", value := "!^" }
      ⟨.loose 0, RecordType.numbered.fresh⟩).root = RecordType.numbered.fresh := by rfl
  have hc : stages.all Stage.refersShort = true := by decide +kernel
  have hs : ∀ stage ∈ stages, stage.Spellable := by
    intro stage hm
    have hf := List.all_eq_true.mp hc stage hm
    rcases List.mem_cons.mp hm with rfl | hm
    · exact .of_refersShort RecordType.numbered_indexable hf
    · obtain rfl := List.mem_singleton.mp hm
      exact .of_refersShort (hr ▸ RecordType.numbered_indexable) hf
  have hm : stages.map (fun stage => stage.spellOut.path) = ["numbers", "numbers.0"] := by
    decide +kernel
  exact ⟨hs, hm, Session.trail_spellOut {} [] target requests hs⟩

end FieldPatch
