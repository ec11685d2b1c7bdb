import FieldPatch.Proofs.Edit.Channels
import FieldPatch.Proofs.Session.Workspace
import Mathlib.Data.List.Forall2

namespace FieldPatch

namespace Session

/-- The session with other settings. -/
def under (t : Settings) (s : Session) : Session := { s with settings := t }

end Session

/-- The turn with other settings, less the reports that these hold back. -/
def Turn.under (t : Settings) (turn : Turn) : Turn :=
  { turn with session := turn.session.under t, notes := turn.notes.filter t.lets }

/-- Settings let through every event that is not a diagnostic. -/
def Event.passes (t : Settings) : Event → Bool
  | .diagnostic d => t.lets d
  | _ => true

def ScriptRun.under (t : Settings) (run : ScriptRun) : ScriptRun :=
  { run with session := run.session.under t, events := run.events.filter (Event.passes t) }

theorem Settings.Covers.report {s t : Settings} (h : s.Covers t) (d : Diagnostic) :
    t.report d = (s.report d).filter t.lets := by
  have hr := report_within s t d
  rwa [h.within_eq] at hr

theorem Event.filter_passes (t : Settings) (notes : List Diagnostic) :
    (notes.map diagnostic).filter (passes t) = (notes.filter t.lets).map diagnostic := by
  rw [List.filter_map]
  rfl

theorem Event.filterMap_passes (t : Settings) (events : List Event) :
    (events.filter (passes t)).filterMap diagnostic? =
      (events.filterMap diagnostic?).filter t.lets := by
  rw [List.filterMap_filter, List.filter_filterMap]
  refine List.filterMap_congr fun event _ => ?_
  cases event with
  | diagnostic d => rfl
  | _ => rfl

theorem ScriptRun.under_append (t : Settings) (first second : ScriptRun) :
    (first.append second).under t = (first.under t).append (second.under t) := by
  simp only [under, append, List.filter_append]

theorem ScriptRun.under_ofTurn {t : Settings} {said : Event} (h : said.passes t = true)
    (turn : Turn) : (ofTurn said turn).under t = ofTurn said (turn.under t) := by
  simp only [under, ofTurn, Turn.under, List.filter_cons_of_pos h, Event.filter_passes]

namespace Session

variable {s : Session} {t : Settings}

theorem inFile_under (file : FileId) : (s.under t).inFile file = (s.inFile file).under t := by
  unfold inFile
  change (if s.lastFile = some file then _ else _) = _
  split
  · rfl
  · rfl

theorem fileNotes_under (h : s.settings.Covers t) (file : FileId) (request : Request) :
    (s.under t).fileNotes file request = (s.fileNotes file request).filter t.lets := by
  unfold fileNotes turnNotes
  change (if s.lastFile = some file then _ else if s.contexts.isEmpty then _ else _) = _
  split
  · rfl
  · split
    · rfl
    · exact h.report _

theorem editFile_under (h : s.settings.Covers t) (request : Request) (root : Value RecordType) :
    (s.under t).editFile request root = (s.editFile request root).under t := by
  cases hv : isVoid request with
  | true =>
    rw [editFile_of_void hv, editFile_of_void hv]
    rfl
  | false =>
    have hr := Editing.run_within s.settings t s.tags s.contexts request root
    rw [h.within_eq] at hr
    have hu : Editing.run (s.under t).settings (s.under t).tags (s.under t).contexts request root =
        Editing.muted t (Editing.run s.settings s.tags s.contexts request root) := hr
    rw [editFile_of_given hv, editFile_of_given hv, hu]
    rfl

theorem edit_under_of_free (h : s.settings.Covers t) {request : Request} {target : Object}
    (hs : ¬ s.Latched (.ofEdit request target.id))
    (hu : ¬ (s.under t).Latched (.ofEdit request target.id)) :
    (s.under t).edit request target = (s.edit request target).under t := by
  have hi : (s.inFile (.ofEdit request target.id)).settings.Covers t := by rwa [settings_inFile]
  rw [edit_of_free hs, edit_of_free hu]
  simp only [inFile_under, editFile_under hi, fileNotes_under h]
  simp only [Turn.under, List.filter_append]

/-- An edit asks the settings only for what to report and whether faults latch. -/
theorem edit_under (h : s.settings.Covers t) (hl : s.settings.latchFaults = t.latchFaults)
    (request : Request) (target : Object) :
    (s.under t).edit request target = (s.edit request target).under t := by
  by_cases hs : s.Latched (.ofEdit request target.id)
  · have hu : (s.under t).Latched (.ofEdit request target.id) :=
      ⟨hs.1, hs.2.1, hl.symm.trans hs.2.2⟩
    rw [edit_of_latched hs, edit_of_latched hu]
    exact congrArg (Turn.mk _ _ _) (h.report _)
  · have hu : ¬ (s.under t).Latched (.ofEdit request target.id) := fun hc =>
      hs ⟨hc.1, hc.2.1, hl.trans hc.2.2⟩
    exact edit_under_of_free h hs hu

theorem applySteps_under (h : s.settings.Covers t) (hl : s.settings.latchFaults = t.latchFaults)
    (base : Request) (count position : Nat) (target : Object) (steps : List ScriptStep) :
    (s.under t).applySteps base count position target steps =
      (s.applySteps base count position target steps).under t := by
  induction steps generalizing s position target with
  | nil => rfl
  | cons step rest ih =>
    let turn := s.edit (step.request base) target
    have hs : turn.session.settings = s.settings := settings_edit _ target s
    have hr := ih (hs ▸ h) (hs ▸ hl) (position + 1) { target with value := turn.root }
    have he := edit_under h hl (step.request base) target
    simp only [applySteps_cons, he]
    rw [ScriptRun.under_append, ScriptRun.under_ofTurn rfl, ← hr]
    rfl

theorem applyScript_under (h : s.settings.Covers t) (hl : s.settings.latchFaults = t.latchFaults)
    (script : Script) (base : Request) (target : Object) :
    (s.under t).applyScript script base target = (s.applyScript script base target).under t := by
  unfold applyScript
  split
  · have hr := h.report
      (remark .fault base (Fault.removedConfig base.fileKey base.typeName).message)
    simp only [ScriptRun.under, Event.filter_passes, ← hr]
    rfl
  · exact applySteps_under h hl base _ _ target _

end Session

namespace Workspace

def under (t : Settings) (w : Workspace) : Workspace := { w with session := w.session.under t }

def Deed.under (t : Settings) (deed : Deed) : Deed :=
  { deed with
    workspace := deed.workspace.under t
    events := deed.events.filter (Event.passes t) }

/-- Both deeds come to the same; they can differ in the settings and in what was told. -/
structure Deed.Alike (a b : Deed) : Prop where
  answer : a.answer = b.answer
  values : a.workspace.values = b.workspace.values
  contexts : a.workspace.session.contexts = b.workspace.session.contexts
  faulted : a.workspace.session.faulted = b.workspace.session.faulted
  lastFile : a.workspace.session.lastFile = b.workspace.session.lastFile
  lastKey : a.workspace.session.lastKey? = b.workspace.session.lastKey?
  last : a.workspace.session.last = b.workspace.session.last

/-- The settings keep of the notes of one deed those that the other one has. -/
def Deed.Kept (t : Settings) (all kept : Deed) : Prop := kept.notes = all.notes.filter t.lets

variable {w : Workspace} {t : Settings}

theorem perform_under (h : w.session.settings.Covers t)
    (hl : w.session.settings.latchFaults = t.latchFaults) (task : Task) :
    (w.under t).perform task = (w.perform task).under t := by
  cases task with
  | edit request id =>
    have he := Session.edit_under h hl request ⟨id, w.values id⟩
    simp only [perform, under, he, Deed.under, Event.filter_passes]
    rfl
  | script script base id =>
    have hs := Session.applyScript_under h hl script base ⟨id, w.values id⟩
    simp only [perform, under, hs]
    rfl
  | reset => rfl
  | put id value => rfl

theorem deeds_under (h : w.session.settings.Covers t)
    (hl : w.session.settings.latchFaults = t.latchFaults) (tasks : List Task) :
    (w.under t).deeds tasks = (w.deeds tasks).map (Deed.under t) := by
  induction tasks generalizing w with
  | nil => rfl
  | cons task rest ih =>
    have hs : (w.perform task).workspace.session.settings = w.session.settings := by
      obtain ⟨calls, hc⟩ := leads_perform (.refl w.session) task
      rw [hc, Session.settings_after]
    have hr := ih (w := (w.perform task).workspace) (hs ▸ h) (hs ▸ hl)
    simp only [deeds, List.map_cons, perform_under h hl]
    exact congrArg _ hr

theorem Deed.kept_under (t : Settings) (deed : Deed) : Kept t deed (deed.under t) :=
  Event.filterMap_passes t deed.events

/-- Two sessions with the same latch setting do the same, whatever channels are on: after every task
they stand alike, and each has told what its settings let through of all that a session with all
channels on tells. -/
theorem deeds_alike_of_channels (s t all : Settings) (hl : s.latchFaults = t.latchFaults)
    (ha : all.latchFaults = s.latchFaults) (hc : ∀ c, all.channelEnabled c = true)
    (tags : TagTable) (values : ObjectId → Value RecordType) (tasks : List Task) :
    let deeds (settings : Settings) := (start settings tags values).deeds tasks
    List.Forall₂ Deed.Alike (deeds s) (deeds t) ∧
      List.Forall₂ (Deed.Kept s) (deeds all) (deeds s) ∧
      List.Forall₂ (Deed.Kept t) (deeds all) (deeds t) := by
  intro deeds
  have hs : deeds s = (deeds all).map (Deed.under s) :=
    deeds_under (w := start all tags values) (fun c _ => hc c) ha tasks
  have ht : deeds t = (deeds all).map (Deed.under t) :=
    deeds_under (w := start all tags values) (fun c _ => hc c) (ha.trans hl) tasks
  have hk (u : Settings) :
      List.Forall₂ (Deed.Kept u) (deeds all) ((deeds all).map (Deed.under u)) :=
    List.forall₂_map_right_iff.mpr (List.forall₂_same.mpr fun deed _ => Deed.kept_under u deed)
  refine ⟨?_, hs ▸ hk s, ht ▸ hk t⟩
  rw [hs, ht, List.forall₂_map_left_iff, List.forall₂_map_right_iff, List.forall₂_same]
  intro deed _
  exact ⟨rfl, rfl, rfl, rfl, rfl, rfl, rfl⟩

/-- A context, a script with a fault in it, a skipped edit and a reset, under the usual settings and
under those with all channels on. -/
theorem numbered_deeds_alike :
    let quiet : Settings := {}
    let tasks : List Task :=
      [.edit { path := "numbers", value := "!^" } (.loose 0),
        .script { steps := [⟨1, "^.0", "8 !+"⟩, ⟨2, "numbers.*", "abc !+"⟩, ⟨3, "^", "!-"⟩] } {}
          (.loose 0),
        .reset, .edit { path := "numbers.0", value := "!-" } (.loose 0)]
    let deeds (settings : Settings) :=
      (start settings [] fun _ => RecordType.numbered.fresh).deeds tasks
    quiet.latchFaults = Settings.verbose.latchFaults ∧
      (∀ c, Settings.verbose.channelEnabled c = true) ∧
      (deeds quiet).map (fun deed => deed.notes.length) = [0, 1, 0, 0] ∧
      (deeds .verbose).map (fun deed => deed.notes.length) = [1, 6, 0, 1] ∧
      List.Forall₂ Deed.Alike (deeds quiet) (deeds .verbose) ∧
      List.Forall₂ (Deed.Kept quiet) (deeds .verbose) (deeds quiet) := by
  intro quiet tasks deeds
  have hl : quiet.latchFaults = Settings.verbose.latchFaults := rfl
  have hc : ∀ c, Settings.verbose.channelEnabled c = true := by
    intro c
    cases c <;> rfl
  have hq : (deeds quiet).map (fun deed => deed.notes.length) = [0, 1, 0, 0] := by decide +kernel
  have hv : (deeds .verbose).map (fun deed => deed.notes.length) = [1, 6, 0, 1] := by
    decide +kernel
  obtain ⟨ha, hk, -⟩ := deeds_alike_of_channels quiet .verbose .verbose hl hl.symm hc []
    (fun _ => RecordType.numbered.fresh) tasks
  exact ⟨hl, hc, hq, hv, ha, hk⟩

end Workspace

end FieldPatch
