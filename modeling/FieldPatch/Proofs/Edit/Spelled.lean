import FieldPatch.Proofs.Context.Spelled
import FieldPatch.Proofs.Edit.Alike
import FieldPatch.Proofs.Path.Grammar

namespace FieldPatch

namespace FieldPath

/-- The segment that a path ends at: its own last one, or the last one of its context. -/
def lastSegment? (contexts : ContextStack) (path : FieldPath) : Option String :=
  match path.segments.getLast? with
  | some last => some last
  | none => (contexts.get? path.contextDepth).bind fun c => c.location.getLast?.map Step.text

theorem location_of_origin {root : Value RecordType} {contexts : ContextStack} {path : FieldPath}
    {cursor : Cursor} (h : path.origin root contexts = .ok cursor) (hn : cursor.location ≠ []) :
    ∃ context, contexts.get? path.contextDepth = some context ∧
      context.location = cursor.location := by
  simp only [origin] at h
  split at h
  · split at h
    · cases h
    · rename_i context hg
      split at h
      · cases h
      · cases h
        exact ⟨context, hg, rfl⟩
  · split at h
    · cases h
      exact absurd rfl hn
    · cases h

theorem get?_contextDepth {contexts : ContextStack} {path : FieldPath}
    (h : path.usesContext = false) : contexts.get? path.contextDepth = none := by
  have hd : path.contextDepth = 0 := by simpa [usesContext] using h
  rw [hd]
  rfl

/-- Without markers, a path leads to the same place whatever the contexts. -/
theorem destination_of_unmarked {root : Value RecordType} {path : FieldPath}
    (h : path.usesContext = false) (contexts others : ContextStack) :
    path.destination root others = path.destination root contexts := by
  simp only [destination, origin, h, Bool.false_eq_true, if_false]

theorem lastSegment?_of_unmarked {path : FieldPath} (h : path.usesContext = false)
    (contexts others : ContextStack) :
    path.lastSegment? others = path.lastSegment? contexts := by
  simp only [lastSegment?, get?_contextDepth h]

/-- The text of a path whose marker run is replaced by the location of a context. -/
def spelled (context : Context) (path : FieldPath) : String :=
  Segment.join (context.location.text :: path.segments)

section Spelled

variable {root : Value RecordType} {context : Context} {path : FieldPath}

theorem spelled_eq (hc : context.Anchored root) (path : FieldPath) :
    path.spelled context = Segment.join (context.location.segments ++ path.segments) := by
  obtain ⟨value, hv⟩ := hc
  exact Segment.join_cons_join (by simpa [Location.segments] using hv.below) path.segments

theorem plain_spelled (hc : context.Anchored root) (hp : path.Plain) :
    ∀ s ∈ context.location.segments ++ path.segments, Segment.Plain s := by
  obtain ⟨value, hv⟩ := hc
  intro s hs
  rcases List.mem_append.mp hs with hs | hs
  · exact hv.plain s hs
  · exact hp.segments s hs

theorem spelled_ne_nil (hc : context.Anchored root) (path : FieldPath) :
    context.location.segments ++ path.segments ≠ [] := by
  obtain ⟨value, hv⟩ := hc
  simp [Location.segments, hv.below]

theorem parse_spelled (hc : context.Anchored root) (hp : path.Plain)
    (hl : (Segment.split (path.spelled context)).length ≤ PathFault.maxSegments) :
    parse (path.spelled context) = .ok ⟨0, context.location.segments ++ path.segments⟩ := by
  have hs := plain_spelled hc hp
  have hn := spelled_ne_nil hc path
  have hj : Segment.split (Segment.join (context.location.segments ++ path.segments)) = _ :=
    Text.split_join _ hn fun s hm => (hs s hm).whole
  rw [spelled_eq hc] at hl ⊢
  rw [hj] at hl
  exact parse_join hn hs hl

theorem spelled_ne_empty (hc : context.Anchored root) (hp : path.Plain) :
    path.spelled context ≠ "" := by
  rw [spelled_eq hc]
  exact Segment.join_ne_empty (spelled_ne_nil hc path) (plain_spelled hc hp)

theorem lastSegment?_spelled {contexts : ContextStack}
    (hg : contexts.get? path.contextDepth = some context) (others : ContextStack) :
    (⟨0, context.location.segments ++ path.segments⟩ : FieldPath).lastSegment? others =
      path.lastSegment? contexts := by
  simp only [lastSegment?]
  rw [List.getLast?_append, hg]
  cases path.segments.getLast? with
  | some last => rfl
  | none =>
    rw [Option.none_or, Location.segments, List.getLast?_map]
    dsimp only
    rw [Option.bind_some]
    cases context.location.getLast? with
    | some step => rfl
    | none => rfl

end Spelled

end FieldPath

def Request.spellOut (contexts : ContextStack) (request : Request) : Request :=
  match FieldPath.parse request.path with
  | .error _ => request
  | .ok path =>
    match contexts.get? path.contextDepth with
    | none => request
    | some context => { request with path := path.spelled context }

namespace Editing

variable {tags : TagTable}

theorem segment_locate {path : FieldPath} {e : Editing} {d : Destination}
    (h : (locate path e).1 = .ok d) :
    path.lastSegment? e.contexts = some (locate path e).2.progress.segment := by
  obtain ⟨hs, -⟩ := start_spec path e
  rw [locate] at h ⊢
  rw [FieldPath.lastSegment?]
  generalize start path e = r at hs h
  obtain ⟨(fault | cursor), started⟩ := r
  · cases h
  · dsimp only at h ⊢
    cases hl : path.segments.getLast? with
    | none =>
      simp only [hl] at h
      rw [locateContext] at h ⊢
      cases hg : cursor.location.getLast? with
      | none => simp [hg] at h
      | some step =>
        have hn : cursor.location ≠ [] := fun he => by simp [he] at hg
        obtain ⟨context, hc, he⟩ := FieldPath.location_of_origin hs.symm hn
        simp only [hg] at h ⊢
        rw [hc, Option.bind_some, he, hg]
        split
        · rfl
        · rfl
    | some last =>
      simp only [hl] at h
      unfold locateEnd at h ⊢
      split at h
      · cases h
      · dsimp only at h ⊢
        split
        · rfl
        · rfl

/-- Two paths to the same place are edited alike. -/
theorem follow_sameEnd {path path' : FieldPath} {e e' : Editing} (hr : e'.root = e.root)
    (ho : e'.progress.op = e.progress.op) (hv : e'.progress.value = e.progress.value)
    (hd : path'.destination e'.root e'.contexts = path.destination e.root e.contexts)
    (hs : path'.lastSegment? e'.contexts = path.lastSegment? e.contexts) :
    SameEnd (follow tags path e) (follow tags path' e') := by
  obtain ⟨hl, hf⟩ := locate_spec path e
  obtain ⟨hl', hf'⟩ := locate_spec path' e'
  have hg (d : Destination) := @segment_locate path e d
  have hg' (d : Destination) := @segment_locate path' e' d
  simp only [follow]
  generalize locate path e = r at hl hf hg
  generalize locate path' e' = r' at hl' hf' hg'
  rw [hd, ← hl] at hl'
  obtain ⟨first, arrived⟩ := r
  obtain ⟨first', arrived'⟩ := r'
  cases hl'
  cases first with
  | error fault => exact ⟨rfl, (hf'.root.trans hr).trans hf.root.symm⟩
  | ok d =>
    have hseg : arrived'.progress.segment = arrived.progress.segment :=
      Option.some.inj ((hg' d rfl).symm.trans (hs.trans (hg d rfl)))
    have ha : arrived.Alike arrived' :=
      ⟨(hf'.root.trans hr).trans hf.root.symm, (hf'.op.trans ho).trans hf.op.symm,
        (hf'.value.trans hv).trans hf.value.symm, hseg⟩
    exact ha.editDestination d

theorem run_sameEnd {settings : Settings} {contexts others : ContextStack}
    {request request' : Request} {root : Value RecordType}
    (h : SameEnd (attempt tags { settings, request, root, contexts })
      (attempt tags { settings, request := request', root, contexts := others })) :
    SameEnd (run settings tags contexts request root) (run settings tags others request' root) := by
  simp only [run]
  generalize attempt tags { settings, request, root, contexts } = r at h
  generalize attempt tags { settings, request := request', root, contexts := others } = r' at h
  obtain ⟨first, done⟩ := r
  obtain ⟨first', done'⟩ := r'
  obtain ⟨he, hr⟩ := h
  cases he
  cases first with
  | error fault => exact ⟨rfl, hr⟩
  | ok outcome => exact ⟨rfl, hr⟩

variable (tags) in
/-- With its context spelled out, and whatever the contexts are then, an edit comes to the same
end. -/
theorem run_spellOut {settings : Settings} {contexts : ContextStack} (others : ContextStack)
    {request : Request} {root : Value RecordType} (ha : contexts.Anchored root)
    (hx : root.Indexable)
    (hc : ∀ path, FieldPath.parse request.path = .ok path → path.usesContext = true →
      ∃ context, contexts.get? path.contextDepth = some context ∧
        (Segment.split (path.spelled context)).length ≤ PathFault.maxSegments) :
    SameEnd (run settings tags contexts request root)
      (run settings tags others (request.spellOut contexts) root) := by
  apply run_sameEnd
  cases hp : FieldPath.parse request.path with
  | error fault =>
    have hs : request.spellOut contexts = request := by simp only [Request.spellOut, hp]
    rw [hs]
    simp only [attempt, hp]
    exact ⟨rfl, rfl⟩
  | ok path =>
    have hpl := FieldPath.plain_of_parse hp
    cases hu : path.usesContext with
    | true =>
      obtain ⟨context, hg, hl⟩ := hc path hp hu
      have hca := ha context (ContextStack.mem_of_get? hg)
      have hs : request.spellOut contexts = { request with path := path.spelled context } := by
        simp only [Request.spellOut, hp, hg]
      rw [hs]
      simp only [attempt, hp, FieldPath.parse_spelled hca hpl hl]
      exact follow_sameEnd rfl rfl rfl (FieldPath.destination_spelled others hx hu hg hca)
        (FieldPath.lastSegment?_spelled hg others)
    | false =>
      have hs : request.spellOut contexts = request := by
        simp only [Request.spellOut, hp, FieldPath.get?_contextDepth hu]
      rw [hs]
      simp only [attempt, hp]
      exact follow_sameEnd rfl rfl rfl (FieldPath.destination_of_unmarked hu contexts others)
        (FieldPath.lastSegment?_of_unmarked hu contexts others)

end Editing

end FieldPatch
