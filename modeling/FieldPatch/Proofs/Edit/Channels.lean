import FieldPatch.Edit.Run

namespace FieldPatch

namespace Settings

/-- The settings `t`, with those channels off that are off in `s`. -/
def within (s t : Settings) : Settings :=
  { t with
    logFaults := s.logFaults && t.logFaults
    logDiagnostics := s.logDiagnostics && t.logDiagnostics
    logContext := s.logContext && t.logContext }

/-- The channel of the diagnostic is on. -/
def lets (s : Settings) (d : Diagnostic) : Bool := s.channelEnabled d.channel

/-- Every channel that is on in `t` is on in `s`. -/
def Covers (s t : Settings) : Prop :=
  ∀ c : Channel, t.channelEnabled c = true → s.channelEnabled c = true

variable {s t : Settings}

theorem channelEnabled_within (s t : Settings) (c : Channel) :
    (s.within t).channelEnabled c = (s.channelEnabled c && t.channelEnabled c) := by
  cases c <;> rfl

theorem report_within (s t : Settings) (d : Diagnostic) :
    (s.within t).report d = (s.report d).filter t.lets := by
  rw [report, report, channelEnabled_within]
  cases hs : s.channelEnabled d.channel with
  | false => rfl
  | true =>
    cases ht : t.channelEnabled d.channel with
    | false => simp [lets, ht]
    | true => simp [lets, ht]

theorem Covers.within_eq (h : s.Covers t) : s.within t = t := by
  have hf : (s.logFaults && t.logFaults) = t.logFaults :=
    Bool.and_eq_right_iff_imp.mpr (h .fault)
  have hi : (s.logDiagnostics && t.logDiagnostics) = t.logDiagnostics :=
    Bool.and_eq_right_iff_imp.mpr (h .info)
  have hc : (s.logContext && t.logContext) = t.logContext :=
    Bool.and_eq_right_iff_imp.mpr (h .context)
  rw [within, hf, hi, hc]

theorem Covers.refl (s : Settings) : s.Covers s := fun _ h => h

end Settings

namespace Editing

/-- The edit as it is under settings with fewer channels on. -/
def under (t : Settings) (e : Editing) : Editing :=
  { e with settings := e.settings.within t, notes := e.notes.filter t.lets }

/-- What a function makes of an edit, as it is under those settings. -/
def muted {α : Type} (t : Settings) (r : α × Editing) : α × Editing := (r.1, r.2.under t)

section Steps

variable (t : Settings) (e : Editing)

@[simp] theorem root_under : (e.under t).root = e.root := rfl

@[simp] theorem contexts_under : (e.under t).contexts = e.contexts := rfl

@[simp] theorem progress_under : (e.under t).progress = e.progress := rfl

@[simp] theorem chained_under : (e.under t).chained = e.chained := rfl

@[simp] theorem expanded_under : (e.under t).expanded = e.expanded := rfl

theorem note_under (channel : Channel) (verb : Verb) (detail : String) :
    (e.under t).note channel verb detail = (e.note channel verb detail).under t := by
  simp only [note, under, Settings.report_within, List.filter_append]
  rfl

theorem refuse_under (fault : String) : (e.under t).refuse fault = (e.refuse fault).under t := by
  simp only [refuse, under, Settings.report_within, List.filter_append]
  rfl

theorem traceLost_under (lost : Nat) (detail : Nat → String) :
    (e.under t).traceLost lost detail = (e.traceLost lost detail).under t := by
  rw [traceLost, traceLost]
  split
  · exact note_under t e _ _ _
  · rfl

theorem assign_under (location : Location) (value : Value RecordType) :
    (e.under t).assign location value = (e.assign location value).under t := by
  simp only [assign, contexts_under]
  exact traceLost_under t
    { e.amend location value with contexts := (e.contexts.discardWithin location false).2 } _ _

theorem openChain_under : (e.under t).openChain = e.openChain.under t := by
  simp only [openChain, contexts_under, chained_under]
  exact traceLost_under t
    { e with contexts := if e.chained then e.contexts else .empty, chained := true } _ _

theorem setContext_under (location : Location) (kind : Kind RecordType) :
    (e.under t).setContext location kind = (e.setContext location kind).under t := by
  simp only [setContext, openChain_under, contexts_under, progress_under]
  split
  · exact note_under t e.openChain _ _ _
  · exact note_under t { e.openChain with
      contexts := e.openChain.contexts.push ⟨location, kind, e.openChain.progress.segment⟩ } _ _ _

theorem perform_under (location : Location) (kind : Kind RecordType) (edit : SlotEdit) :
    (e.under t).perform location kind edit = muted t (e.perform location kind edit) := by
  cases edit with
  | assign value opens detail =>
    have ha : ((e.under t).assign location value).info detail =
        ((e.assign location value).info detail).under t := by
      rw [assign_under]
      exact note_under t _ _ _ _
    cases opens with
    | false => exact congrArg (Prod.mk Outcome.applied) ha
    | true =>
      have hs := setContext_under t ((e.assign location value).info detail) location kind
      rw [← ha] at hs
      exact congrArg (Prod.mk Outcome.applied) hs
  | amend value detail =>
    exact congrArg (Prod.mk Outcome.applied) (note_under t (e.amend location value) _ _ _)
  | keep detail => exact congrArg (Prod.mk Outcome.noOp) (note_under t e _ _ _)
  | mark => exact congrArg (Prod.mk Outcome.contextSet) (setContext_under t e location kind)

end Steps

section Places

variable (t : Settings) (tags : TagTable) (e : Editing)

theorem editSlot_under (location : Location) (kind : Kind RecordType) :
    editSlot tags location kind (e.under t) = muted t (editSlot tags location kind e) := by
  have ha : (e.under t).aim location kind = (e.aim location kind).under t := rfl
  simp only [editSlot, ha, root_under, progress_under]
  split
  · rfl
  · split
    · rfl
    · rw [perform_under]
      rfl

theorem fill_under (location : Location) (kind : Kind RecordType) :
    fill tags location kind (e.under t) = muted t (fill tags location kind e) := by
  simp only [fill]
  by_cases hb : Text.allBlank e.progress.value = true
  · have hb' : Text.allBlank (e.under t).progress.value = true := hb
    simp only [if_pos hb, if_pos hb']
    by_cases hk : kind.isStructural = true
    · simp only [if_pos hk]
      exact congrArg (Prod.mk (Except.ok Outcome.incomplete))
        (setContext_under t (e.aim location kind) location kind)
    · simp only [if_neg hk]
      rfl
  · have hb' : ¬ Text.allBlank (e.under t).progress.value = true := hb
    simp only [if_neg hb, if_neg hb']
    exact editSlot_under t tags
      { e with progress := { e.progress with op := fillOperation kind e.progress.value } } _ _

theorem makeElement_under (list : Location) (items : List (Value RecordType)) (index : Nat)
    (kind : Kind RecordType) (entry : Value RecordType) :
    (e.under t).makeElement list items index kind entry =
      (e.makeElement list items index kind entry).under t :=
  note_under t { e.amend list (.list (items.insertIdx index entry)) with
    contexts := e.contexts.afterInsert list index } _ _ _

theorem insertElement_under (list : Location) (items : List (Value RecordType)) (index : Nat)
    (kind : Kind RecordType) : insertElement tags list items index kind (e.under t) =
      muted t (insertElement tags list items index kind e) := by
  simp only [insertElement, progress_under]
  split
  · rfl
  · rw [makeElement_under, fill_under]

theorem dropElement_under (list : Location) (items : List (Value RecordType)) (index : Nat) :
    (e.under t).dropElement list items index = (e.dropElement list items index).under t := by
  let dropped : Editing := { e.amend list (.list (items.eraseIdx index)) with
    contexts := (e.contexts.afterRemove list index).2 }
  have hn := note_under t (dropped.reach (list.child (.index index))) .info .edits
    s!"removed entry at index {index}"
  simp only [dropElement, contexts_under]
  rw [← traceLost_under]
  exact congrArg _ hn

theorem editElement_under (list : Location) (items : List (Value RecordType))
    (index : Option Nat) (kind : Kind RecordType) :
    editElement tags list items index kind (e.under t) =
      muted t (editElement tags list items index kind e) := by
  simp only [editElement, progress_under]
  split
  · exact insertElement_under t tags e list items _ kind
  · rfl
  · exact congrArg (Prod.mk (Except.ok Outcome.removed)) (dropElement_under t e list items _)
  · exact editSlot_under t tags e _ kind

theorem makeEntry_under (map : Location) (entries : List (Key × Value RecordType)) (key : Key)
    (entry : Value RecordType) :
    (e.under t).makeEntry map entries key entry = (e.makeEntry map entries key entry).under t :=
  note_under t (e.amend map (.map (entries ++ [(key, entry)]))) _ _ _

theorem insertEntry_under (map : Location) (entries : List (Key × Value RecordType)) (key : Key)
    (kind : Kind RecordType) : insertEntry tags map entries key kind (e.under t) =
      muted t (insertEntry tags map entries key kind e) := by
  simp only [insertEntry, progress_under]
  split
  · rfl
  · rw [makeEntry_under, fill_under]

theorem dropEntry_under (map : Location) (entries : List (Key × Value RecordType)) (key : Key) :
    (e.under t).dropEntry map entries key = (e.dropEntry map entries key).under t := by
  let slot := map.child (.key key)
  let dropped : Editing := { e.amend map (.map (Table.erase key entries)) with
    contexts := (e.contexts.discardWithin slot true).2 }
  have hn := note_under t (dropped.reach slot) .info .edits
    ("removed key " ++ key.text ++ " from target map")
  simp only [dropEntry, contexts_under]
  rw [← traceLost_under]
  exact congrArg _ hn

theorem editEntry_under (map : Location) (entries : List (Key × Value RecordType)) (key : Key)
    (kind : Kind RecordType) : editEntry tags map entries key kind (e.under t) =
      muted t (editEntry tags map entries key kind e) := by
  simp only [editEntry, progress_under]
  split
  · exact congrArg (Prod.mk (Except.ok Outcome.noOp))
      (note_under t (e.reach (map.child (.key key))) _ _ _)
  · exact insertEntry_under t tags e map entries key kind
  · rfl
  · exact congrArg (Prod.mk (Except.ok Outcome.removed)) (dropEntry_under t e map entries key)
  · exact editSlot_under t tags e _ kind

theorem editDestination_under (d : Destination) :
    editDestination tags d (e.under t) = muted t (editDestination tags d e) := by
  let arrived : Editing := { e with progress := { e.progress with atEnd := true } }
  obtain ⟨container, place⟩ := d
  cases place with
  | field name kind => exact editSlot_under t tags arrived _ kind
  | element items index kind => exact editElement_under t tags arrived container items index kind
  | entry entries key kind => exact editEntry_under t tags arrived container entries key kind

end Places

section Paths

variable (t : Settings) (tags : TagTable) (e : Editing)

theorem startAtContext_under (depth : Nat) (path : FieldPath) :
    startAtContext depth path (e.under t) = muted t (startAtContext depth path e) := by
  simp only [startAtContext, contexts_under]
  cases e.contexts.select? depth with
  | none => rfl
  | some selection =>
    obtain ⟨context, contexts⟩ := selection
    let selected : Editing := { e with
      progress := { e.progress with
        segment := Segment.markerRun depth
        segmentCount := path.segments.length + 1 }
      contexts, chained := true }
    let blank : Prop := (context.location.isEmpty || (e.root.at? context.location).isNone) = true
    let lose (f : Editing) : Editing := f.traceLost (e.contexts.size - depth) fun lost =>
      s!"context {depth} selected, discarded {lost} deeper contexts"
    let place := context.location.text
    have hl : lose (selected.under t) = (lose selected).under t := traceLost_under t selected _ _
    have ht : (lose (selected.under t)).trace s!"reuses context {depth} at {place}" =
        ((lose selected).trace s!"reuses context {depth} at {place}").under t := by
      rw [hl]
      exact note_under t _ _ _ _
    -- Both runs test the same root, so that one case split serves both.
    change (if blank then _ else _) = muted t (if blank then _ else _)
    by_cases hc : blank
    · simp only [if_pos hc]
      rfl
    · simp only [if_neg hc]
      exact congrArg (fun told : Editing =>
        (Except.ok (Cursor.mk context.location context.kind),
          { told with expanded := context.location.segments })) ht

theorem start_under (path : FieldPath) : start path (e.under t) = muted t (start path e) := by
  rw [start, start]
  split
  · exact startAtContext_under t e _ path
  · simp only [startAtRoot, root_under]
    split
    · rfl
    · rfl

theorem descend_under (index : Nat) (cursor : Cursor) (segments : List String) :
    descend index cursor (e.under t) segments = muted t (descend index cursor e segments) := by
  induction segments generalizing index cursor e with
  | nil => rfl
  | cons segment rest ih =>
    have he : (e.under t).enter index segment = (e.enter index segment).under t := rfl
    simp only [descend, he, root_under]
    split
    · rfl
    · rename_i next hn
      exact ih ((e.enter index segment).reach next.location) _ next

theorem locateContext_under (cursor : Cursor) :
    locateContext cursor (e.under t) = muted t (locateContext cursor e) := by
  simp only [locateContext]
  split
  · rfl
  · rename_i step hs
    have he : (e.under t).enter ((e.under t).progress.segmentCount - 1) step.text =
        (e.enter (e.progress.segmentCount - 1) step.text).under t := rfl
    simp only [he, root_under]
    split
    · rfl
    · rfl

theorem locateEnd_under (cursor : Cursor) (index : Nat) (segments : List String) (last : String) :
    locateEnd cursor index segments last (e.under t) =
      muted t (locateEnd cursor index segments last e) := by
  simp only [locateEnd, descend_under]
  generalize descend index cursor e segments = r
  obtain ⟨(fault | container), arrived⟩ := r
  · rfl
  · have he : (arrived.under t).enter (index + segments.length) last =
        (arrived.enter (index + segments.length) last).under t := rfl
    simp only [muted, he, root_under]
    split
    · rfl
    · rfl

theorem locate_under (path : FieldPath) : locate path (e.under t) = muted t (locate path e) := by
  simp only [locate, start_under]
  generalize start path e = r
  obtain ⟨(fault | cursor), started⟩ := r
  · rfl
  · have hl : (started.under t).layOut path.segments = (started.layOut path.segments).under t := rfl
    simp only [muted, hl, expanded_under]
    split
    · exact locateContext_under t _ cursor
    · exact locateEnd_under t _ cursor _ _ _

theorem follow_under (path : FieldPath) :
    follow tags path (e.under t) = muted t (follow tags path e) := by
  simp only [follow, locate_under]
  generalize locate path e = r
  obtain ⟨(fault | d), arrived⟩ := r
  · rfl
  · exact editDestination_under t tags arrived d

theorem attempt_under : attempt tags (e.under t) = muted t (attempt tags e) := by
  have hp : (e.under t).prepare = e.prepare.under t := rfl
  have hr : (e.under t).request = e.request := rfl
  simp only [attempt, hp, hr]
  split
  · rfl
  · exact follow_under t tags e.prepare _

end Paths

/-- Settings with fewer channels on do nothing to an edit but to hold back reports. -/
theorem run_within (s t : Settings) (tags : TagTable) (contexts : ContextStack) (request : Request)
    (root : Value RecordType) :
    run (s.within t) tags contexts request root = muted t (run s tags contexts request root) := by
  have ha := attempt_under t tags { settings := s, request, root, contexts }
  have he : under t { settings := s, request, root, contexts } =
      { settings := s.within t, request, root, contexts } := rfl
  rw [he] at ha
  simp only [run, ha]
  generalize attempt tags { settings := s, request, root, contexts } = r
  obtain ⟨(fault | outcome), done⟩ := r
  · exact congrArg (Prod.mk (Outcome.faulted fault)) (refuse_under t done fault.message)
  · rfl

end Editing

end FieldPatch
