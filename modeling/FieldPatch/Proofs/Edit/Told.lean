import FieldPatch.Proofs.Edit.Residue

namespace FieldPatch

/-- All channels are on. -/
def Settings.Loud (s : Settings) : Prop := ∀ c : Channel, s.channelEnabled c = true

theorem Settings.Loud.report {s : Settings} (h : s.Loud) (d : Diagnostic) : s.report d = [d] :=
  if_pos (h d.channel)

namespace Diagnostic

/-- The reports on a channel, in order. -/
def on (channel : Channel) (notes : List Diagnostic) : List Diagnostic :=
  notes.filter fun d => d.channel = channel

theorem on_eq_nil {channel : Channel} {notes : List Diagnostic} :
    on channel notes = [] ↔ ∀ n ∈ notes, n.channel ≠ channel := by
  rw [on, List.filter_eq_nil_iff]
  simp only [decide_eq_true_eq, ne_eq]

theorem on_append (channel : Channel) (first second : List Diagnostic) :
    on channel (first ++ second) = on channel first ++ on channel second := List.filter_append _ _

theorem on_report {channel : Channel} {d : Diagnostic} (h : d.channel ≠ channel) (s : Settings) :
    on channel (s.report d) = [] := by
  unfold Settings.report
  split
  · exact List.filter_cons_of_neg (by simpa using h)
  · rfl

end Diagnostic

namespace Editing

/-- From the first state to the second, the edit tells nothing on the fault channel, and these verbs
on the info channel, if all channels are on. -/
structure Tells (verbs : List Verb) (e e' : Editing) : Prop where
  settings : e'.settings = e.settings
  fault : Diagnostic.on .fault e'.notes = Diagnostic.on .fault e.notes
  info : e.settings.Loud → (Diagnostic.on .info e'.notes).map Diagnostic.verb =
    (Diagnostic.on .info e.notes).map Diagnostic.verb ++ verbs

namespace Tells

variable {verbs more : List Verb} {a b c : Editing}

theorem quiet (hs : b.settings = a.settings) (hn : b.notes = a.notes) : Tells [] a b :=
  ⟨hs, congrArg _ hn, fun _ => by rw [hn, List.append_nil]⟩

theorem refl (e : Editing) : Tells [] e e := quiet rfl rfl

theorem trans (h : Tells verbs a b) (h' : Tells more b c) : Tells (verbs ++ more) a c := by
  refine ⟨h'.settings.trans h.settings, h'.fault.trans h.fault, fun hl => ?_⟩
  rw [h'.info (h.settings ▸ hl), h.info hl, List.append_assoc]

theorem quiet_trans (h : Tells [] a b) (h' : Tells more b c) : Tells more a c := h.trans h'

/-- Nothing is told before the first of both. -/
theorem since (h : Tells verbs b c) (hs : b.settings = a.settings) (hn : b.notes = a.notes) :
    Tells verbs a c := (quiet hs hn).quiet_trans h

theorem trans_quiet (h : Tells verbs a b) (h' : Tells [] b c) : Tells verbs a c := by
  have ht := h.trans h'
  rwa [List.append_nil] at ht

end Tells

section Steps

variable (e : Editing)

theorem on_note {channel told : Channel} (h : told ≠ channel) (verb : Verb) (detail : String) :
    Diagnostic.on channel (e.note told verb detail).notes = Diagnostic.on channel e.notes := by
  let d : Diagnostic :=
    { channel := told, verb, request := e.request, path := e.shownPath, detail }
  have hd : Diagnostic.on channel (e.settings.report d) = [] := Diagnostic.on_report h _
  have hn := Diagnostic.on_append channel e.notes (e.settings.report d)
  rwa [hd, List.append_nil] at hn

theorem tells_note (verb : Verb) (detail : String) : e.Tells [verb] (e.note .info verb detail) := by
  refine ⟨rfl, on_note e (by decide) verb detail, fun hl => ?_⟩
  rw [note, hl.report, Diagnostic.on_append, List.map_append]
  rfl

theorem tells_info (detail : String) : e.Tells [.edits] (e.info detail) :=
  tells_note e .edits detail

theorem tells_trace (detail : String) : e.Tells [] (e.trace detail) := by
  refine ⟨rfl, on_note e (by decide) .edits detail, fun _ => ?_⟩
  rw [trace, on_note e (by decide) .edits detail, List.append_nil]

theorem tells_traceLost (lost : Nat) (text : Nat → String) :
    e.Tells [] (e.traceLost lost text) := by
  unfold traceLost
  split
  · exact tells_trace e _
  · exact .refl e

theorem tells_assign (location : Location) (value : Value RecordType) :
    e.Tells [] (e.assign location value) := by
  have hq : e.Tells [] { e.amend location value with
    contexts := (e.contexts.discardWithin location false).2 } := .quiet rfl rfl
  simp only [assign]
  exact hq.trans (tells_traceLost _ _ _)

theorem tells_openChain : e.Tells [] e.openChain := by
  have hq : e.Tells [] { e with
    contexts := if e.chained then e.contexts else .empty, chained := true } := .quiet rfl rfl
  simp only [openChain]
  exact hq.trans (tells_traceLost _ _ _)

theorem tells_setContext (location : Location) (kind : Kind RecordType) :
    e.Tells [] (e.setContext location kind) := by
  have ho := tells_openChain e
  let contexts := e.openChain.contexts.push ⟨location, kind, e.openChain.progress.segment⟩
  have hq : e.openChain.Tells [] { e.openChain with contexts } := .quiet rfl rfl
  simp only [setContext]
  split
  · exact ho.trans (tells_trace _ _)
  · exact ho.trans (hq.trans (tells_trace _ _))

end Steps

/-- The edit ends as it tells: a write is told with `edits`, a lack of effect once with `attempts`,
and a context not at all. -/
structure Reported (verbs : List Verb) (e : Editing) (r : Result) : Prop where
  tells : e.Tells verbs r.2
  sound : ∀ outcome, r.1 = .ok outcome → outcome.isFault = false
  change : r.2.root ≠ e.root → .edits ∈ verbs
  noOp : r.1 = .ok .noOp → verbs = [.attempts]
  contextSet : r.1 = .ok .contextSet → verbs = []

namespace Reported

variable {verbs : List Verb} {e e' : Editing} {r : Result}

theorem silent (h : e.Tells [] e') (hr : e'.root = e.root) {outcome : Outcome}
    (hf : outcome.isFault = false) (hn : outcome ≠ .noOp) : Reported [] e (.ok outcome, e') := by
  refine ⟨h, fun other ho => ?_, fun hc => absurd hr hc, fun ho => ?_, fun _ => rfl⟩
  · cases ho
    exact hf
  · cases ho
    contradiction

theorem refused (h : e.Tells [] e') (hr : e'.root = e.root) (fault : Fault) :
    Reported [] e (.error fault, e') := ⟨h, nofun, fun hc => absurd hr hc, nofun, nofun⟩

theorem idle (h : e.Tells [.attempts] e') (hr : e'.root = e.root) :
    Reported [.attempts] e (.ok .noOp, e') := by
  refine ⟨h, fun other ho => ?_, fun hc => absurd hr hc, fun _ => rfl, nofun⟩
  cases ho
  rfl

theorem written (h : e.Tells verbs e') (hv : .edits ∈ verbs) {end? : Except Fault Outcome}
    (hm : ∀ outcome, end? = .ok outcome → outcome.mutated = true) :
    Reported verbs e (end?, e') := by
  refine ⟨h, fun outcome ho => ?_, fun _ => hv, fun ho => ?_, fun ho => ?_⟩
  · have ht := hm outcome ho
    cases outcome with
    | faulted fault => contradiction
    | _ => rfl
  · exact absurd (hm _ ho) (by decide)
  · exact absurd (hm _ ho) (by decide)

theorem applied (h : e.Tells [.edits] e') {outcome : Outcome} (hm : outcome.mutated = true) :
    Reported [.edits] e (.ok outcome, e') :=
  written h List.mem_cons_self fun other ho => by
    cases ho
    exact hm

/-- Nothing is told before the edit goes on. -/
theorem after (h : Reported verbs e' r) (ht : e.Tells [] e') (hr : e'.root = e.root) :
    Reported verbs e r :=
  ⟨ht.trans h.tells, h.sound, fun hn => h.change fun hc => hn (hc.trans hr), h.noOp, h.contextSet⟩

end Reported

section Places

variable (tags : TagTable) (e : Editing)

theorem perform_reported (location : Location) (kind : Kind RecordType) (edit : SlotEdit) :
    ∃ verbs, Reported verbs e
      (.ok (e.perform location kind edit).1, (e.perform location kind edit).2) := by
  cases edit with
  | assign value opens detail =>
    have ht : e.Tells [.edits] ((e.assign location value).info detail) :=
      (tells_assign e location value).quiet_trans (tells_info _ detail)
    cases opens with
    | false => exact ⟨[.edits], .applied ht rfl⟩
    | true => exact ⟨[.edits], .applied (ht.trans_quiet (tells_setContext _ location kind)) rfl⟩
  | amend value detail =>
    have ht : e.Tells [.edits] ((e.amend location value).info detail) :=
      (tells_info (e.amend location value) detail).since rfl rfl
    exact ⟨[.edits], .applied ht rfl⟩
  | keep detail => exact ⟨[.attempts], .idle (tells_note e .attempts detail) rfl⟩
  | mark =>
    have hr := root_setContext e location kind
    exact ⟨[], .silent (tells_setContext e location kind) hr rfl nofun⟩

theorem editSlot_reported (location : Location) (kind : Kind RecordType) :
    ∃ verbs, Reported verbs e (editSlot tags location kind e) := by
  have ha : e.Tells [] (e.aim location kind) := .quiet rfl rfl
  rw [editSlot]
  dsimp only
  split
  · exact ⟨[], .refused ha rfl _⟩
  · split
    · exact ⟨[], .refused ha rfl _⟩
    · rename_i edit hd
      obtain ⟨verbs, hp⟩ := perform_reported (e.aim location kind) location kind edit
      exact ⟨verbs, hp.after ha rfl⟩

theorem fill_reported (location : Location) (kind : Kind RecordType) :
    ∃ verbs, Reported verbs e (fill tags location kind e) := by
  have ha : e.Tells [] (e.aim location kind) := .quiet rfl rfl
  have hn : Outcome.incomplete ≠ .noOp := fun h => by contradiction
  rw [fill]
  dsimp only
  split
  · cases kind.isStructural with
    | false =>
      exact ⟨[], .silent ha rfl rfl hn⟩
    | true =>
      have hs := ha.trans (tells_setContext _ location kind)
      exact ⟨[], .silent hs (root_setContext _ _ _) rfl hn⟩
  · obtain ⟨verbs, hs⟩ := editSlot_reported tags
      { e with progress := { e.progress with op := fillOperation kind e.progress.value } } location
      kind
    exact ⟨verbs, hs.after (.quiet rfl rfl) rfl⟩

/-- A new entry that is filled is reported as a change. -/
theorem mutated_of_fill {location : Location} {kind : Kind RecordType} {outcome : Outcome}
    (h : (fill tags location kind e).1 = .ok outcome) : outcome.mutated = true := by
  have hm : mutates (fill tags location kind e) = outcome.mutated := by
    rw [mutates, h]
  rw [← hm]
  cases hn : mutates (fill tags location kind e) with
  | true => rfl
  | false =>
    cases hb : Text.allBlank e.progress.value with
    | true =>
      rw [mutates_fill_of_blank tags hb] at hn
      contradiction
    | false =>
      obtain ⟨fault, hf⟩ := error_of_fill tags hb hn
      rw [h] at hf
      contradiction

/-- An entry that was made and told is then filled. -/
theorem fill_made {made : Editing} (h : e.Tells [.edits] made) (location : Location)
    (kind : Kind RecordType) : ∃ verbs, Reported verbs e (fill tags location kind made) := by
  obtain ⟨verbs, hf⟩ := fill_reported tags made location kind
  refine ⟨.edits :: verbs, ?_⟩
  exact .written (h.trans hf.tells) List.mem_cons_self fun outcome ho =>
    mutated_of_fill tags made ho

theorem insertElement_reported (list : Location) (items : List (Value RecordType)) (index : Nat)
    (kind : Kind RecordType) :
    ∃ verbs, Reported verbs e (insertElement tags list items index kind e) := by
  rw [insertElement]
  split
  · exact ⟨[], .refused (.refl e) rfl _⟩
  · rename_i entry hn
    have hm : e.Tells [.edits] (e.makeElement list items index kind entry) :=
      (tells_info _ _).since rfl rfl
    exact fill_made tags e hm _ kind

theorem insertEntry_reported (map : Location) (entries : List (Key × Value RecordType)) (key : Key)
    (kind : Kind RecordType) :
    ∃ verbs, Reported verbs e (insertEntry tags map entries key kind e) := by
  rw [insertEntry]
  split
  · exact ⟨[], .refused (.refl e) rfl _⟩
  · rename_i entry hn
    have hm : e.Tells [.edits] (e.makeEntry map entries key entry) :=
      (tells_info _ _).since rfl rfl
    exact fill_made tags e hm _ kind

/-- What is taken out is told before the contexts that are lost with it. -/
theorem taken_reported {e told : Editing} (h : e.Tells [.edits] told) (lost : Nat)
    (text : Nat → String) : Reported [.edits] e (.ok .removed, told.traceLost lost text) :=
  .applied (h.trans_quiet (tells_traceLost told lost text)) rfl

theorem dropElement_reported (list : Location) (items : List (Value RecordType)) (index : Nat) :
    Reported [.edits] e (.ok .removed, e.dropElement list items index) := by
  simp only [dropElement]
  refine taken_reported ?_ _ _
  exact (tells_info _ _).since rfl rfl

theorem dropEntry_reported (map : Location) (entries : List (Key × Value RecordType)) (key : Key) :
    Reported [.edits] e (.ok .removed, e.dropEntry map entries key) := by
  simp only [dropEntry]
  refine taken_reported ?_ _ _
  exact (tells_info _ _).since rfl rfl

theorem editElement_reported (list : Location) (items : List (Value RecordType))
    (index : Option Nat) (kind : Kind RecordType) :
    ∃ verbs, Reported verbs e (editElement tags list items index kind e) := by
  simp only [editElement]
  split
  · exact insertElement_reported tags e list items _ kind
  · exact ⟨[], .refused (.refl e) rfl _⟩
  · exact ⟨[.edits], dropElement_reported e list items _⟩
  · exact editSlot_reported tags e _ kind

theorem editEntry_reported (map : Location) (entries : List (Key × Value RecordType)) (key : Key)
    (kind : Kind RecordType) :
    ∃ verbs, Reported verbs e (editEntry tags map entries key kind e) := by
  simp only [editEntry]
  split
  · have hn : e.Tells [.attempts] ((e.reach (map.child (.key key))).noEffect
        ("key " ++ key.text ++ " already exists in target map, ignoring insert")) :=
      (tells_note _ .attempts _).since rfl rfl
    exact ⟨[.attempts], .idle hn rfl⟩
  · exact insertEntry_reported tags e map entries key kind
  · exact ⟨[], .refused (.refl e) rfl _⟩
  · exact ⟨[.edits], dropEntry_reported e map entries key⟩
  · exact editSlot_reported tags e _ kind

theorem editDestination_reported (d : Destination) :
    ∃ verbs, Reported verbs e (editDestination tags d e) := by
  let arrived : Editing := { e with progress := { e.progress with atEnd := true } }
  have hq : e.Tells [] arrived := .quiet rfl rfl
  obtain ⟨container, place⟩ := d
  cases place with
  | field name kind =>
    obtain ⟨verbs, h⟩ := editSlot_reported tags arrived (container.child (.field name)) kind
    exact ⟨verbs, h.after hq rfl⟩
  | element items index kind =>
    obtain ⟨verbs, h⟩ := editElement_reported tags arrived container items index kind
    exact ⟨verbs, h.after hq rfl⟩
  | entry entries key kind =>
    obtain ⟨verbs, h⟩ := editEntry_reported tags arrived container entries key kind
    exact ⟨verbs, h.after hq rfl⟩

end Places

section Paths

variable (e : Editing)

theorem startAtContext_tells (depth : Nat) (path : FieldPath) :
    e.Tells [] (startAtContext depth path e).2 := by
  simp only [startAtContext]
  split
  · exact .quiet rfl rfl
  · split
    · exact .quiet rfl rfl
    · rename_i context contexts hs hc
      let selected : Editing := { e with
        progress := { e.progress with
          segment := Segment.markerRun depth
          segmentCount := path.segments.length + 1 }
        contexts, chained := true }
      have hl (lost : Nat) (text : Nat → String) (detail : String) :
          e.Tells [] ((selected.traceLost lost text).trace detail) :=
        ((tells_traceLost selected lost text).quiet_trans (tells_trace _ detail)).since rfl rfl
      let place := context.location.text
      have ht := hl (e.contexts.size - depth)
        (fun lost => s!"context {depth} selected, discarded {lost} deeper contexts")
        s!"reuses context {depth} at {place}"
      exact ⟨ht.settings, ht.fault, ht.info⟩

theorem start_tells (path : FieldPath) : e.Tells [] (start path e).2 := by
  rw [start]
  split
  · exact startAtContext_tells e _ path
  · rw [startAtRoot]
    split
    · exact .refl e
    · exact .refl e

theorem descend_tells (index : Nat) (cursor : Cursor) (segments : List String) :
    e.Tells [] (descend index cursor e segments).2 := by
  induction segments generalizing index cursor e with
  | nil => exact .refl e
  | cons segment rest ih =>
    have he : e.Tells [] (e.enter index segment) := .quiet rfl rfl
    simp only [descend]
    split
    · exact he
    · rename_i next hn
      have hr : e.Tells [] ((e.enter index segment).reach next.location) := .quiet rfl rfl
      exact hr.quiet_trans (ih _ _ _)

theorem locateContext_tells (cursor : Cursor) : e.Tells [] (locateContext cursor e).2 := by
  simp only [locateContext]
  split
  · exact .refl e
  · split
    · exact .quiet rfl rfl
    · exact .quiet rfl rfl

theorem locateEnd_tells (cursor : Cursor) (index : Nat) (segments : List String) (last : String) :
    e.Tells [] (locateEnd cursor index segments last e).2 := by
  have hd := descend_tells e index cursor segments
  simp only [locateEnd]
  generalize descend index cursor e segments = r at hd
  obtain ⟨(fault | container), arrived⟩ := r
  · exact hd
  · dsimp only
    split
    · exact hd.quiet_trans (.quiet rfl rfl)
    · exact hd.quiet_trans (.quiet rfl rfl)

/-- On the way to its destination an edit tells of contexts only. -/
theorem locate_tells (path : FieldPath) : e.Tells [] (locate path e).2 := by
  have hs := start_tells e path
  simp only [locate]
  generalize start path e = r at hs
  obtain ⟨(fault | cursor), started⟩ := r
  · exact hs
  · have hl : e.Tells [] (started.layOut path.segments) := hs.quiet_trans (.quiet rfl rfl)
    dsimp only
    split
    · exact hl.quiet_trans (locateContext_tells _ cursor)
    · exact hl.quiet_trans (locateEnd_tells _ cursor _ _ _)

theorem follow_reported (tags : TagTable) (path : FieldPath) :
    ∃ verbs, Reported verbs e (follow tags path e) := by
  have ht := locate_tells e path
  have hr := (locate_spec path e).2.root
  simp only [follow]
  generalize locate path e = r at ht hr
  obtain ⟨(fault | d), arrived⟩ := r
  · exact ⟨[], .refused ht hr fault⟩
  · obtain ⟨verbs, h⟩ := editDestination_reported tags arrived d
    exact ⟨verbs, h.after ht hr⟩

theorem attempt_reported (tags : TagTable) : ∃ verbs, Reported verbs e (attempt tags e) := by
  have hp : e.Tells [] e.prepare := .quiet rfl rfl
  simp only [attempt]
  split
  · exact ⟨[], .refused hp rfl _⟩
  · rename_i path h
    obtain ⟨verbs, hf⟩ := follow_reported e.prepare tags path
    exact ⟨verbs, hf.after hp rfl⟩

end Paths

end Editing

end FieldPatch
