import FieldPatch.Proofs.Session.Calls
import FieldPatch.Proofs.Session.Script
import FieldPatch.Proofs.Session.Steady
import Mathlib.Logic.Function.Basic

namespace FieldPatch

/-- A session and the configs that it edits. -/
structure Workspace where
  session : Session
  values : ObjectId → Value RecordType

namespace Workspace

/-- What can be asked for, by the config that it is about. -/
inductive Task where
  | edit (request : Request) (id : ObjectId)
  | script (script : Script) (base : Request) (id : ObjectId)
  | reset
  /-- The config is given a value from outside. -/
  | put (id : ObjectId) (value : Value RecordType)

inductive Answer where
  | outcome (outcome : Outcome)
  | report (report : ScriptReport)
  | none

def Answer.outcomes : Answer → List Outcome
  | outcome o => [o]
  | report r => r.outcomes
  | none => []

/-- A task done: what it answers, the workspace behind it, and what was told meanwhile. -/
structure Deed where
  answer : Answer
  workspace : Workspace
  events : List Event

def Deed.notes (deed : Deed) : List Diagnostic := deed.events.filterMap Event.diagnostic?

def perform (w : Workspace) : Task → Deed
  | .edit request id =>
    let turn := w.session.edit request ⟨id, w.values id⟩
    ⟨.outcome turn.outcome, ⟨turn.session, Function.update w.values id turn.root⟩,
      turn.notes.map .diagnostic⟩
  | .script script base id =>
    let run := w.session.applyScript script base ⟨id, w.values id⟩
    ⟨.report run.report, ⟨run.session, Function.update w.values id run.root⟩, run.events⟩
  | .reset => ⟨.none, ⟨w.session.reset, w.values⟩, []⟩
  | .put id value => ⟨.none, ⟨w.session, Function.update w.values id value⟩, []⟩

def deeds (w : Workspace) : List Task → List Deed
  | [] => []
  | task :: rest => w.perform task :: (w.perform task).workspace.deeds rest

def after (w : Workspace) (tasks : List Task) : Workspace :=
  tasks.foldl (fun w task => (w.perform task).workspace) w

def start (settings : Settings) (tags : TagTable) (values : ObjectId → Value RecordType) :
    Workspace := ⟨(Session.start settings tags).1, values⟩

/-- What the steps of a script ask for; a script that is refused asks for nothing. -/
def edits (script : Script) (base : Request) (id : ObjectId) : List Task :=
  if script.removed then [] else script.steps.map fun step => .edit (step.request base) id

variable {w : Workspace}

/-- What every task of a sort keeps and comes to, any tasks of that sort keep and come to. -/
theorem deeds_keep {P : Workspace → Prop} {Q : Deed → Prop} {A : Task → Prop}
    (hp : ∀ w task, P w → A task → P (w.perform task).workspace ∧ Q (w.perform task)) (h : P w)
    {tasks : List Task} (ha : ∀ task ∈ tasks, A task) :
    P (w.after tasks) ∧ ∀ deed ∈ w.deeds tasks, P deed.workspace ∧ Q deed := by
  induction tasks generalizing w with
  | nil => exact ⟨h, fun deed hd => by contradiction⟩
  | cons task rest ih =>
    have hn := hp w task h (ha task List.mem_cons_self)
    obtain ⟨hl, hd⟩ := ih hn.1 fun t ht => ha t (List.mem_cons_of_mem _ ht)
    refine ⟨hl, fun deed hm => ?_⟩
    rcases List.mem_cons.mp hm with rfl | hm
    · exact hn
    · exact hd deed hm

theorem after_steps (w : Workspace) (base : Request) (id : ObjectId) (count position : Nat)
    (steps : List ScriptStep) :
    let run := w.session.applySteps base count position ⟨id, w.values id⟩ steps
    let edits := steps.map fun step => Task.edit (step.request base) id
    ⟨run.session, Function.update w.values id run.root⟩ = w.after edits ∧
      run.report.outcomes = (w.deeds edits).flatMap fun deed => deed.answer.outcomes := by
  induction steps generalizing w position with
  | nil => exact ⟨congrArg (mk w.session) (Function.update_eq_self id w.values), rfl⟩
  | cons step rest ih =>
    let next := (w.perform (.edit (step.request base) id)).workspace
    have hv : next.values id = (w.session.edit (step.request base) ⟨id, w.values id⟩).root :=
      Function.update_self id _ w.values
    obtain ⟨ha, ho⟩ := ih next (position + 1)
    have hu (root : Value RecordType) :
        Function.update next.values id root = Function.update w.values id root :=
      Function.update_idem _ _ w.values
    rw [hv] at ha ho
    rw [hu] at ha
    exact ⟨ha, congrArg (List.cons _) ho⟩

/-- A script does what its edits do one after the other. -/
theorem perform_script (w : Workspace) (script : Script) (base : Request) (id : ObjectId) :
    let deed := w.perform (.script script base id)
    deed.workspace = w.after (edits script base id) ∧
      deed.answer.outcomes =
        (w.deeds (edits script base id)).flatMap fun deed => deed.answer.outcomes := by
  cases hr : script.removed with
  | true =>
    have hs : w.session.applyScript script base ⟨id, w.values id⟩ = _ := if_pos hr
    simp only [perform, hs, edits, hr, if_true]
    exact ⟨congrArg (mk w.session) (Function.update_eq_self id w.values), rfl⟩
  | false =>
    have hs := Session.applyScript_of_kept w.session base ⟨id, w.values id⟩ script hr
    simp only [perform, hs, edits, hr, Bool.false_eq_true, if_false]
    exact after_steps w base id _ 1 script.steps

theorem mem_edits {script : Script} {base : Request} {id : ObjectId} {task : Task}
    (h : task ∈ edits script base id) : ∃ step : ScriptStep, task = .edit (step.request base) id := by
  unfold edits at h
  split at h
  · contradiction
  · obtain ⟨step, -, rfl⟩ := List.mem_map.mp h
    exact ⟨step, rfl⟩

/-- To the session, a task is a row of calls. -/
theorem leads_perform {s : Session} (h : s.Leads w.session) (task : Task) :
    s.Leads (w.perform task).workspace.session := by
  cases task with
  | edit request id => exact h.serve (.edit request ⟨id, w.values id⟩)
  | script script base id =>
    rw [(perform_script w script base id).1]
    have hk (v : Workspace) (task : Task) (hv : s.Leads v.session)
        (ht : ∃ step : ScriptStep, task = .edit (step.request base) id) :
        s.Leads (v.perform task).workspace.session ∧ True := by
      obtain ⟨step, rfl⟩ := ht
      exact ⟨hv.serve (.edit (step.request base) ⟨id, v.values id⟩), trivial⟩
    exact (deeds_keep (P := fun v => s.Leads v.session) (Q := fun _ => True) hk h
      fun _ => mem_edits).1
  | reset => exact h.serve .reset
  | put id value => exact h

theorem leads_after (w : Workspace) (tasks : List Task) :
    w.session.Leads (w.after tasks).session :=
  (deeds_keep (P := fun v => w.session.Leads v.session) (Q := fun _ => True) (A := fun _ => True)
    (fun _ task h _ => ⟨leads_perform h task, trivial⟩) (.refl w.session) fun _ _ => trivial).1

/-- A file stands for the config that `home` gives, and no config is given a value from outside. -/
def Task.Respects (home : FileId → ObjectId) : Task → Prop
  | .edit request id => home (.ofEdit request id) = id
  | .script _ base id => home (.ofEdit base id) = id
  | .reset => True
  | .put _ _ => False

/-- Every context leads to a slot of the config that the current file stands for. -/
def Settled (home : FileId → ObjectId) (w : Workspace) : Prop :=
  ∀ c ∈ w.session.contexts.entries,
    ∃ file, w.session.lastFile = some file ∧ c.Anchored (w.values (home file))

/-- No edit of the deed faults because of a context. -/
def Deed.Current (deed : Deed) : Prop := ∀ l, .faulted (.staleContext l) ∉ deed.answer.outcomes

variable {home : FileId → ObjectId}

theorem settled_start (settings : Settings) (tags : TagTable) (values : ObjectId → Value RecordType)
    (home : FileId → ObjectId) : (start settings tags values).Settled home := by
  intro c hc
  contradiction

theorem Settled.anchored {file : FileId} (h : w.Settled home)
    (hl : w.session.lastFile = some file) :
    w.session.contexts.Anchored (w.values (home file)) := by
  intro c hc
  obtain ⟨other, ho, ha⟩ := h c hc
  cases hl.symm.trans ho
  exact ha

theorem Settled.edit (h : w.Settled home) {request : Request} {id : ObjectId}
    (hi : home (.ofEdit request id) = id) :
    (w.perform (.edit request id)).workspace.Settled home ∧
      (w.perform (.edit request id)).Current := by
  have hw : w.session.lastFile = some (.ofEdit request id) →
      w.session.contexts.Anchored (w.values id) := fun hl => hi ▸ h.anchored hl
  have hs := w.session.edit_steady request ⟨id, w.values id⟩ hw
  have ha := hs.moves.anchored (Session.anchored_inFile hw)
  refine ⟨fun c hc => ⟨_, hs.file, ?_⟩, fun l hl => hs.current l (List.mem_singleton.mp hl).symm⟩
  change c.Anchored (Function.update w.values id _ (home (.ofEdit request id)))
  rw [hi, Function.update_self]
  exact ha c hc

/-- A task keeps the workspace settled, and its faults, if any, blame no context. -/
theorem Settled.perform (h : w.Settled home) {task : Task} (hr : task.Respects home) :
    (w.perform task).workspace.Settled home ∧ (w.perform task).Current := by
  cases task with
  | edit request id => exact h.edit hr
  | script script base id =>
    obtain ⟨hw, ho⟩ := perform_script w script base id
    have hk (v : Workspace) (task : Task) (hv : v.Settled home)
        (ht : ∃ step : ScriptStep, task = .edit (step.request base) id) :
        (v.perform task).workspace.Settled home ∧ (v.perform task).Current := by
      obtain ⟨step, rfl⟩ := ht
      exact hv.edit hr
    obtain ⟨hs, hd⟩ := deeds_keep hk h fun _ => mem_edits
    refine ⟨hw ▸ hs, fun l hl => ?_⟩
    rw [ho] at hl
    obtain ⟨deed, hm, hl⟩ := List.mem_flatMap.mp hl
    exact (hd deed hm).2 l hl
  | reset => exact ⟨fun c hc => by contradiction, fun l hl => by contradiction⟩
  | put id value => exact absurd hr not_false

theorem Settled.deeds (h : w.Settled home) {tasks : List Task}
    (hr : ∀ task ∈ tasks, task.Respects home) :
    (w.after tasks).Settled home ∧
      ∀ deed ∈ w.deeds tasks, deed.workspace.Settled home ∧ deed.Current :=
  deeds_keep (fun _ _ hw ht => hw.perform ht) h hr

/-- However a new session goes on, every context leads from the config of the current file to a slot
of its kind, and so no edit faults because of a context. -/
theorem contexts_reach_slots (settings : Settings) (tags : TagTable)
    (values : ObjectId → Value RecordType) (home : FileId → ObjectId) (tasks : List Task)
    (hr : ∀ task ∈ tasks, task.Respects home) :
    ∀ deed ∈ (start settings tags values).deeds tasks,
      (∀ c ∈ deed.workspace.session.contexts.entries, ∃ file value,
        deed.workspace.session.lastFile = some file ∧
          (deed.workspace.values (home file)).Reaches c.location ⟨c.kind, value⟩) ∧
      ∀ l, .faulted (.staleContext l) ∉ deed.answer.outcomes := by
  intro deed hd
  obtain ⟨hs, hc⟩ := ((settled_start settings tags values home).deeds hr).2 deed hd
  refine ⟨fun c hm => ?_, hc⟩
  obtain ⟨file, hl, value, hv⟩ := hs c hm
  exact ⟨file, value, hl, hv.reaches⟩

/-- The list of a unit becomes a context, a script edits from there, and it is still the context. -/
theorem numbers_context_reaches :
    let home : FileId → ObjectId
      | .object id => id
      | .key _ => .loose 0
    let tasks : List Task :=
      [.edit { path := "numbers", value := "!^" } (.loose 0),
        .script { steps := [⟨1, "^.0", "8 !+"⟩, ⟨2, "^.*", "9 !+"⟩] } {} (.loose 0)]
    let all := (start {} [] fun _ => RecordType.numbered.fresh).deeds tasks
    (∀ task ∈ tasks, task.Respects home) ∧
      all.map (fun deed => deed.workspace.session.contexts.size) = [1, 1] ∧
      ∀ deed ∈ all, ∀ c ∈ deed.workspace.session.contexts.entries, ∃ file value,
        deed.workspace.session.lastFile = some file ∧
          (deed.workspace.values (home file)).Reaches c.location ⟨c.kind, value⟩ := by
  intro home tasks all
  have hr : ∀ task ∈ tasks, task.Respects home := by
    intro task ht
    simp only [tasks, List.mem_cons, List.not_mem_nil, or_false] at ht
    rcases ht with rfl | rfl
    · rfl
    · rfl
  have hs : all.map (fun deed => deed.workspace.session.contexts.size) = [1, 1] := by
    decide +kernel
  exact ⟨hr, hs, fun deed hd => (contexts_reach_slots _ _ _ home tasks hr deed hd).1⟩

end Workspace

end FieldPatch
