import FieldPatch.Proofs.Edit.Plain
import FieldPatch.Proofs.Edit.Told
import FieldPatch.Proofs.Path.Grammar

namespace FieldPatch

/-- The fault is found before any segment is followed: the text is no path, or the root no record. -/
def Fault.isUpfront : Fault → Bool
  | path _ | rootNotRecord _ => true
  | _ => false

/-- The step is one of the segments of the path: the one at its position, of as many as it says. -/
structure StepInfo.PointsInto (path : String) (step : StepInfo) : Prop where
  count : (Segment.split path).length = step.count
  first : 1 ≤ step.position
  last : step.position ≤ step.count
  segment : (Segment.split path)[step.position - 1]? = some step.segment

/-- The report is of the fault, and names the segment where it was found, if it was found at one. -/
structure Diagnostic.Locates (fault : Fault) (d : Diagnostic) : Prop where
  detail : d.detail = fault.message
  place : (d.step = none ∧ fault.isUpfront = true) ∨
    ∃ step, d.step = some step ∧ step.PointsInto d.path

namespace Editing

/-- What a fault is reported with: the path as it is shown, and the step that the edit stands at. -/
def standing (e : Editing) : String × Option StepInfo := (e.shownPath, e.progress.stepInfo?)

/-- The edit stands at a segment of the path that it shows. -/
def Pointed (e : Editing) : Prop :=
  ∃ step, e.standing.2 = some step ∧ step.PointsInto e.standing.1

/-- The fault is found at a segment, or before the edit comes to any. -/
def Places (e : Editing) (fault : Fault) : Prop :=
  e.Pointed ∨ (e.standing.2 = none ∧ fault.isUpfront = true)

/-- The edit shows a path of these segments, and has counted them. -/
structure Shows (segments : List String) (e : Editing) : Prop where
  shown : Segment.split e.shownPath = segments
  count : e.progress.segmentCount = segments.length

variable {e : Editing} {segments : List String}

theorem Shows.pointed (h : e.Shows segments)
    (hs : segments[e.progress.segmentIndex]? = some e.progress.segment) : e.Pointed := by
  have hi : e.progress.segmentIndex < segments.length := (List.getElem?_eq_some_iff.mp hs).1
  have hz : e.progress.segmentCount ≠ 0 := by
    rw [h.count]
    omega
  have hstep : e.progress.stepInfo? =
      some ⟨e.progress.segment, e.progress.segmentIndex + 1, e.progress.segmentCount⟩ := if_neg hz
  refine ⟨_, hstep, ?_⟩
  constructor
  case count =>
    change (Segment.split e.shownPath).length = e.progress.segmentCount
    rw [h.shown, h.count]
  case first => exact Nat.le_add_left 1 _
  case last =>
    change e.progress.segmentIndex + 1 ≤ e.progress.segmentCount
    rw [h.count]
    exact hi
  case segment =>
    change (Segment.split e.shownPath)[e.progress.segmentIndex]? = _
    rw [h.shown, hs]

theorem Shows.enter (h : e.Shows segments) (index : Nat) (segment : String) :
    (e.enter index segment).Shows segments := ⟨h.shown, h.count⟩

theorem Shows.reach (h : e.Shows segments) (location : Location) :
    (e.reach location).Shows segments := ⟨h.shown, h.count⟩

theorem Shows.pointed_enter (h : e.Shows segments) {index : Nat} {segment : String}
    (hs : segments[index]? = some segment) : (e.enter index segment).Pointed :=
  (h.enter index segment).pointed hs

section Way

/-- On its way an edit goes from segment to segment of the path. -/
theorem descend_pointed (h : e.Shows segments) {index : Nat} (cursor : Cursor)
    {rest : List String} (hr : ∀ i s, rest[i]? = some s → segments[index + i]? = some s) :
    (descend index cursor e rest).2.Shows segments ∧
      ∀ fault, (descend index cursor e rest).1 = .error fault →
        (descend index cursor e rest).2.Pointed := by
  induction rest generalizing index cursor e with
  | nil =>
    refine ⟨h, fun fault hf => ?_⟩
    rw [descend] at hf
    contradiction
  | cons segment rest ih =>
    have hhere : segments[index]? = some segment := hr 0 segment rfl
    have hnext (i : Nat) (s : String) (hs : rest[i]? = some s) :
        segments[index + 1 + i]? = some s := by
      have hs := hr (i + 1) s hs
      rwa [show index + (i + 1) = index + 1 + i by omega] at hs
    simp only [descend]
    split
    · exact ⟨h.enter index segment, fun _ _ => h.pointed_enter hhere⟩
    · rename_i next ha
      exact ih ((h.enter index segment).reach next.location) next hnext

theorem locateEnd_pointed {front path : List String} (h : e.Shows (front ++ path))
    (cursor : Cursor) {last : String} (hl : path.getLast? = some last) :
    (locateEnd cursor front.length path.dropLast last e).2.Pointed := by
  obtain ⟨base, rfl⟩ := List.getLast?_eq_some_iff.mp hl
  rw [List.dropLast_concat]
  have hbase (i : Nat) (s : String) (hs : base[i]? = some s) :
      (front ++ (base ++ [last]))[front.length + i]? = some s := by
    rw [List.getElem?_append_right (Nat.le_add_right _ _), Nat.add_sub_cancel_left]
    exact List.getElem?_append_left (List.getElem?_eq_some_iff.mp hs).1 ▸ hs
  have hlast : (front ++ (base ++ [last]))[front.length + base.length]? = some last := by
    rw [List.getElem?_append_right (Nat.le_add_right _ _), Nat.add_sub_cancel_left,
      List.getElem?_concat_length]
  obtain ⟨hs, hf⟩ := descend_pointed h cursor hbase
  rw [locateEnd]
  generalize descend front.length cursor e base = r at hs hf
  obtain ⟨(fault | container), arrived⟩ := r
  · exact hf fault rfl
  · have hentered : (arrived.enter (front.length + base.length) last).Pointed :=
      hs.pointed_enter hlast
    dsimp only
    split
    · exact hentered
    · exact hentered

/-- At the context itself, an edit stands at the last segment of its location. -/
theorem locateContext_pointed {cursor : Cursor} (h : e.Shows cursor.location.segments)
    (hn : cursor.location ≠ []) : (locateContext cursor e).2.Pointed := by
  obtain ⟨base, step, he⟩ := (List.eq_nil_or_concat cursor.location).resolve_left hn
  rw [List.concat_eq_append] at he
  have hl : cursor.location.getLast? = some step := by rw [he, List.getLast?_concat]
  have hlast : cursor.location.segments[e.progress.segmentCount - 1]? = some step.text := by
    rw [h.count, he]
    simp [Location.segments]
  have hentered := h.pointed_enter hlast
  simp only [locateContext, hl]
  split
  · exact hentered
  · exact hentered

/-- The edit has not come to a segment, and shows the path that was requested. -/
structure Unstarted (path : FieldPath) (e : Editing) : Prop where
  asked : e.request.path = path.text
  expanded : e.expanded = []
  index : e.progress.segmentIndex = 0
  count : e.progress.segmentCount = 0

variable {path : FieldPath}

/-- A context is selected by the first segment of the path as it was requested. -/
theorem Unstarted.pointed_selecting (h : e.Unstarted path) (hp : path.Plain)
    (hu : path.usesContext = true) {contexts : ContextStack} {chained : Bool} :
    Pointed { e with
      progress := { e.progress with
        segment := Segment.markerRun path.contextDepth
        segmentCount := path.segments.length + 1 }
      contexts, chained } := by
  have hw : path.written = Segment.markerRun path.contextDepth :: path.segments := if_pos hu
  have hshown : e.shownPath = path.text := by
    rw [shownPath, h.expanded]
    exact h.asked
  let selecting : Editing := { e with
    progress := { e.progress with
      segment := Segment.markerRun path.contextDepth
      segmentCount := path.segments.length + 1 }
    contexts, chained }
  have hshows : selecting.Shows path.written := by
    constructor
    case shown =>
      change Segment.split e.shownPath = path.written
      rw [hshown, hp.split_text]
    case count => rw [hw, List.length_cons]
  refine hshows.pointed ?_
  change path.written[e.progress.segmentIndex]? = some (Segment.markerRun path.contextDepth)
  rw [h.index, hw]
  rfl

theorem start_pointed (h : e.Unstarted path) (hp : path.Plain) (fault : Fault)
    (hf : (start path e).1 = .error fault) : (start path e).2.Places fault := by
  rw [start] at hf ⊢
  split at hf
  · rename_i hu
    rw [if_pos hu]
    rw [startAtContext] at hf ⊢
    dsimp only at hf ⊢
    split at hf
    · exact .inl (h.pointed_selecting hp hu)
    · split at hf
      · rename_i hstale
        rw [if_pos hstale]
        exact .inl (h.pointed_selecting hp hu)
      · contradiction
  · rename_i hu
    rw [if_neg hu]
    rw [startAtRoot] at hf ⊢
    split at hf
    · contradiction
    · cases hf
      exact .inr ⟨if_pos h.count, rfl⟩

/-- Once the edit has started, the segments of the place where it starts are laid out. -/
theorem expanded_of_start (h : e.expanded = []) {cursor : Cursor}
    (hs : (start path e).1 = .ok cursor) :
    (start path e).2.expanded = cursor.location.segments := by
  rw [start] at hs ⊢
  split at hs
  · rename_i hu
    rw [if_pos hu]
    rw [startAtContext] at hs ⊢
    dsimp only at hs ⊢
    split at hs
    · contradiction
    · split at hs
      · contradiction
      · rename_i hfresh
        rw [if_neg hfresh]
        cases hs
        rfl
  · rename_i hu
    rw [if_neg hu]
    rw [startAtRoot] at hs ⊢
    split at hs
    · cases hs
      exact h
    · contradiction

theorem shows_layOut {front : Location} (hx : e.expanded = front.segments) (hl : front.Plain)
    (hp : path.Plain) (hn : path.segments = [] → front ≠ []) :
    (e.layOut path.segments).Shows (front.segments ++ path.segments) := by
  have hne : front.segments ++ path.segments ≠ [] := by
    intro he
    obtain ⟨hf, hs⟩ := List.append_eq_nil_iff.mp he
    exact hn hs (List.map_eq_nil_iff.mp hf)
  have hw : ∀ s ∈ front.segments ++ path.segments, Segment.separator ∉ s.toList := by
    intro s hs
    rcases List.mem_append.mp hs with hs | hs
    · exact (hl s hs).whole
    · exact (hp.segments s hs).whole
  have hshown : (e.layOut path.segments).shownPath =
      Segment.join (front.segments ++ path.segments) := by
    rw [← hx] at hne ⊢
    have hfilled : ¬ (e.expanded ++ path.segments).isEmpty = true := fun he =>
      hne (List.isEmpty_iff.mp he)
    exact if_neg hfilled
  constructor
  case shown =>
    rw [hshown]
    exact Text.split_join _ hne hw
  case count => rw [← hx]; rfl

/-- On the way to its destination an edit is refused at a segment, or before it comes to any; and at
its destination it stands at the last one. -/
theorem locate_pointed (h : e.Unstarted path) (hp : path.Plain) (hc : e.contexts.Plain) :
    (∀ fault, (locate path e).1 = .error fault → (locate path e).2.Places fault) ∧
      ∀ d, (locate path e).1 = .ok d → (locate path e).2.Pointed := by
  have hf := start_pointed h hp
  have hx (cursor : Cursor) := @expanded_of_start e path h.expanded cursor
  have ho := (start_spec path e).1
  rw [locate]
  generalize start path e = r at hf hx ho
  obtain ⟨(fault | cursor), started⟩ := r
  · refine ⟨fun other he => ?_, fun _ hd => by contradiction⟩
    cases he
    exact hf fault rfl
  · have hx : started.expanded = cursor.location.segments := hx cursor rfl
    have hl : cursor.location.Plain := FieldPath.plain_of_origin hc ho.symm
    have hn : path.segments = [] → cursor.location ≠ [] :=
      fun hs => FieldPath.below_of_origin (hp.starts hs) ho.symm
    have hshows := shows_layOut hx hl hp hn
    dsimp only
    split
    · rename_i hs
      have hs : path.segments = [] := List.getLast?_eq_none_iff.mp hs
      have hfront : cursor.location.segments ++ path.segments = cursor.location.segments := by
        rw [hs, List.append_nil]
      have hend := locateContext_pointed (hfront ▸ hshows) (hn hs)
      exact ⟨fun _ _ => .inl hend, fun _ _ => hend⟩
    · rename_i last hs
      have hend := locateEnd_pointed hshows cursor hs
      rw [← hx] at hend
      exact ⟨fun _ _ => .inl hend, fun _ _ => hend⟩

end Way

section Standing

variable (e : Editing) (location : Location) (kind : Kind RecordType) (value : Value RecordType)

@[simp] theorem standing_info (detail : String) : (e.info detail).standing = e.standing := rfl

@[simp] theorem standing_traceLost (lost : Nat) (text : Nat → String) :
    (e.traceLost lost text).standing = e.standing := by
  unfold traceLost
  split
  · rfl
  · rfl

@[simp] theorem standing_assign : (e.assign location value).standing = e.standing := by
  simp only [assign, standing_traceLost]
  rfl

@[simp] theorem standing_openChain : e.openChain.standing = e.standing := by
  simp only [openChain, standing_traceLost]
  rfl

@[simp] theorem standing_setContext : (e.setContext location kind).standing = e.standing := by
  have ho := standing_openChain e
  simp only [setContext]
  split
  · exact ho
  · exact ho

theorem standing_perform (edit : SlotEdit) :
    (e.perform location kind edit).2.standing = e.standing := by
  cases edit with
  | assign value opens detail =>
    cases opens with
    | false => simp [perform]
    | true => simp [perform]
  | amend value detail => rfl
  | keep detail => rfl
  | mark => exact standing_setContext e location kind

variable (tags : TagTable)

theorem standing_editSlot : (editSlot tags location kind e).2.standing = e.standing := by
  rw [editSlot]
  dsimp only
  split
  · rfl
  · split
    · rfl
    · exact standing_perform (e.aim location kind) location kind _

theorem standing_fill : (fill tags location kind e).2.standing = e.standing := by
  rw [fill]
  dsimp only
  split
  · split
    · exact standing_setContext (e.aim location kind) location kind
    · rfl
  · rw [standing_editSlot]
    rfl

theorem standing_insertElement (items : List (Value RecordType)) (index : Nat) :
    (insertElement tags location items index kind e).2.standing = e.standing := by
  rw [insertElement]
  split
  · rfl
  · rw [standing_fill]
    rfl

theorem standing_insertEntry (entries : List (Key × Value RecordType)) (key : Key) :
    (insertEntry tags location entries key kind e).2.standing = e.standing := by
  rw [insertEntry]
  split
  · rfl
  · rw [standing_fill]
    rfl

theorem standing_editElement (items : List (Value RecordType)) (index : Option Nat) :
    (editElement tags location items index kind e).2.standing = e.standing := by
  simp only [editElement]
  split
  · exact standing_insertElement e location kind tags items _
  · rfl
  · simp only [dropElement, standing_traceLost]
    rfl
  · exact standing_editSlot e _ kind tags

theorem standing_editEntry (entries : List (Key × Value RecordType)) (key : Key) :
    (editEntry tags location entries key kind e).2.standing = e.standing := by
  simp only [editEntry]
  split
  · rfl
  · exact standing_insertEntry e location kind tags entries key
  · rfl
  · simp only [dropEntry, standing_traceLost]
    rfl
  · exact standing_editSlot e _ kind tags

/-- At its destination an edit stays at the segment where it came to it. -/
theorem standing_editDestination (d : Destination) :
    (editDestination tags d e).2.standing = e.standing := by
  let arrived : Editing := { e with progress := { e.progress with atEnd := true } }
  have ha : arrived.standing = e.standing := rfl
  obtain ⟨container, place⟩ := d
  cases place with
  | field name kind => exact (standing_editSlot arrived _ kind tags).trans ha
  | element items index kind =>
    exact (standing_editElement arrived container kind tags items index).trans ha
  | entry entries key kind =>
    exact (standing_editEntry arrived container kind tags entries key).trans ha

end Standing

section Attempt

variable (tags : TagTable)

theorem Pointed.of_standing {done : Editing} (h : e.Pointed) (hs : done.standing = e.standing) :
    done.Pointed := by
  rw [Pointed, hs]
  exact h

theorem follow_pointed {path : FieldPath} (h : e.Unstarted path) (hp : path.Plain)
    (hc : e.contexts.Plain) (fault : Fault) (hf : (follow tags path e).1 = .error fault) :
    (follow tags path e).2.Places fault := by
  obtain ⟨hs, hd⟩ := locate_pointed h hp hc
  rw [follow] at hf ⊢
  generalize locate path e = r at hf hs hd
  obtain ⟨(stopping | d), arrived⟩ := r
  · cases hf
    exact hs fault rfl
  · have hend := standing_editDestination arrived tags d
    exact .inl ((hd d rfl).of_standing hend)

/-- A fault is found at a segment, or before the edit comes to any. -/
theorem attempt_pointed {settings : Settings} {contexts : ContextStack} (hc : contexts.Plain)
    (request : Request) (root : Value RecordType) (fault : Fault)
    (hf : (attempt tags { settings, request, root, contexts }).1 = .error fault) :
    (attempt tags { settings, request, root, contexts }).2.Places fault := by
  rw [attempt] at hf ⊢
  dsimp only at hf ⊢
  cases hp : FieldPath.parse request.path with
  | error wrong =>
    simp only [hp] at hf ⊢
    cases hf
    exact .inr ⟨rfl, rfl⟩
  | ok path =>
    simp only [hp] at hf ⊢
    obtain ⟨hw, ht⟩ := FieldPath.wellFormed_of_parse hp
    have hu : Unstarted path (prepare { settings, request, root, contexts }) :=
      ⟨ht.symm, rfl, rfl, rfl⟩
    exact follow_pointed tags hu hw.plain hc fault hf

/-- What is reported with a fault, at the place where it was found. -/
theorem mem_notes_refuse {fault : Fault} (h : e.Places fault)
    (hq : Diagnostic.on .fault e.notes = []) {d : Diagnostic}
    (hd : d ∈ (e.refuse fault.message).notes) (hc : d.channel = .fault) : d.Locates fault := by
  rcases List.mem_append.mp hd with hm | hm
  · exact absurd hc (Diagnostic.on_eq_nil.mp hq d hm)
  · rw [Settings.report] at hm
    split at hm
    · rw [List.mem_singleton.mp hm]
      rcases h with hp | hn
      · exact ⟨rfl, .inr hp⟩
      · exact ⟨rfl, .inl hn⟩
    · contradiction

/-- What an edit reports on the fault channel is its fault, where it was found. -/
theorem run_pointed {settings : Settings} {contexts : ContextStack} (hc : contexts.Plain)
    (request : Request) (root : Value RecordType) {d : Diagnostic}
    (hd : d ∈ (run settings tags contexts request root).2.notes) (hf : d.channel = .fault) :
    ∃ fault, (run settings tags contexts request root).1 = .faulted fault ∧ d.Locates fault := by
  have hp : ∀ fault, (attempt tags { settings, request, root, contexts }).1 = .error fault →
      (attempt tags { settings, request, root, contexts }).2.Places fault :=
    attempt_pointed tags hc request root
  obtain ⟨verbs, ht⟩ := attempt_reported { settings, request, root, contexts } tags
  have hq : Diagnostic.on .fault (attempt tags { settings, request, root, contexts }).2.notes = [] :=
    ht.tells.fault
  rw [run] at hd ⊢
  generalize attempt tags { settings, request, root, contexts } = r at hp hq hd
  obtain ⟨(fault | outcome), done⟩ := r
  · exact ⟨fault, rfl, mem_notes_refuse (hp fault rfl) hq hd hf⟩
  · exact absurd hf (Diagnostic.on_eq_nil.mp hq d hd)

end Attempt

end Editing

end FieldPatch
