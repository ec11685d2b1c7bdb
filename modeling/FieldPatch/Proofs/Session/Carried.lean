import FieldPatch.Proofs.Session.Calls
import FieldPatch.Proofs.Session.Workspace

namespace FieldPatch

namespace Stage

variable {stage : Stage}

/-- The contexts that are carried over: those that the edit starts behind, if it opens its slot, and
otherwise as many as there are after it. -/
def carried (stage : Stage) : List Context :=
  stage.contexts.entries.take
    (if stage.turn.opens then stage.depth else stage.turn.session.contexts.size)

theorem Carries.take_eq_carried {n : Nat} {opened : List Context} (h : stage.Carries n opened) :
    stage.contexts.entries.take n = stage.carried := by
  rw [carried]
  cases ho : stage.turn.opens with
  | true => rw [if_pos rfl, h.chain ho]
  | false =>
    have hs : stage.turn.session.contexts.size = (stage.contexts.entries.take n).length := by
      rw [ContextStack.size, h.entries, h.closed ho, List.append_nil, List.length_map]
    rw [if_neg Bool.false_ne_true, hs]
    exact List.prefix_iff_eq_take.mp (List.take_prefix n _)

/-- The place that an edit changes does not move, nor does a slot around it. -/
theorem rebase_of_encloses {l : Location} (h : stage.Encloses l) : stage.rebase l = l := by
  obtain ⟨place, hp, hs⟩ := h
  obtain ⟨d, hd, rfl⟩ := Option.map_eq_some_iff.mp hp
  rw [rebase_of_destination hd]
  exact Destination.rebase_of_encloses hs

/-- An edit that leaves the config as it was moves nothing in it. -/
theorem rebase_of_same (h : stage.turn.root = stage.target.value) (l : Location) :
    stage.rebase l = l := by
  cases stage.course with
  | passed unread root contexts closed =>
    rw [rebase_of_astray (by rw [destination?, unread, Option.bind_none]), id]
  | astray read leads outcome root contexts =>
    rw [rebase_of_astray (by rw [destination?_of_read read, leads]; rfl), id]
  | arrived read leads change account contexts last =>
    rw [h] at change
    rw [rebase_of_destination (by rw [destination?_of_read read, leads]; rfl)]
    exact change.still_of_same l

end Stage

namespace Workspace

variable {home : FileId → ObjectId} {w : Workspace}

/-- One more edit of a workspace, as an edit of its session. -/
def stage (w : Workspace) (request : Request) (id : ObjectId) : Stage :=
  ⟨w.session, ⟨id, w.values id⟩, request⟩

theorem layered_after (h : w.session.contexts.Layered) (tasks : List Task) :
    (w.after tasks).session.contexts.Layered := by
  obtain ⟨calls, hc⟩ := leads_after w tasks
  rw [hc]
  exact Session.after_keeps (P := fun s => s.contexts.Layered) Session.layered_serve h calls

theorem Settled.stage_anchored (h : w.Settled home) {request : Request} {id : ObjectId}
    (hr : home (.ofEdit request id) = id) :
    (w.stage request id).contexts.Anchored (w.values id) := by
  refine Session.anchored_inFile fun hl => ?_
  have ha : w.session.contexts.Anchored (w.values (home (.ofEdit request id))) := h.anchored hl
  rw [hr] at ha
  exact ha

/-- However a new session goes on, one more edit carries contexts over and opens at most one on top
of them. A context carried over whose slot is not the place that the edit changes or around it leads
to the value that it led to before; if it is that place or around it, it stays where it is. -/
theorem contexts_keep_values (settings : Settings) (tags : TagTable)
    (values : ObjectId → Value RecordType) (home : FileId → ObjectId) (tasks : List Task)
    (request : Request) (id : ObjectId) (hr : ∀ task ∈ tasks, task.Respects home)
    (hf : home (.ofEdit request id) = id) :
    let stage := ((start settings tags values).after tasks).stage request id
    (∃ opened : List Context, opened.length ≤ 1 ∧ (stage.turn.opens = false → opened = []) ∧
      stage.turn.session.contexts.entries =
        stage.carried.map (Context.moved stage.rebase) ++ opened) ∧
    ∀ c ∈ stage.carried, ∃ value, stage.target.value.at? c.location = some value ∧
      (¬ stage.Encloses c.location →
        stage.turn.root.at? (stage.rebase c.location) = some value) ∧
      (stage.Encloses c.location → stage.rebase c.location = c.location) ∧
      (stage.turn.root = stage.target.value → stage.rebase c.location = c.location) := by
  intro stage
  have hs := ((settled_start settings tags values home).deeds hr).1
  have hl : stage.contexts.Layered :=
    Session.layered_inFile (layered_after ContextStack.layered_empty tasks) _
  obtain ⟨n, opened, hc⟩ := Stage.carries hl
  have ht := hc.take_eq_carried
  refine ⟨⟨opened, hc.single, hc.closed, ht ▸ hc.entries⟩, fun c hm => ?_⟩
  have ha := hs.stage_anchored hf c (List.take_subset _ _ hm)
  obtain ⟨value, hv⟩ := ha
  have hv : stage.target.value.at? c.location = some value := hv.reaches.at?
  exact ⟨value, hv, hc.beside c (ht ▸ hm) value hv, Stage.rebase_of_encloses,
    fun h => Stage.rebase_of_same h c.location⟩

/-- With the rows of a sheet and the second of them as contexts, the removal of the first one moves
the second, which keeps its numbers, while the rows stay where they are. -/
theorem row_keeps_numbers :
    let home : FileId → ObjectId
      | .object id => id
      | .key _ => .loose 0
    let tasks : List Task :=
      [.edit { path := "rows", value := "!^" } (.loose 0),
        .edit { path := "^.1", value := "!^" } (.loose 0)]
    let stage := ((start {} [] fun _ => RecordType.sheet.fresh).after tasks).stage
      { path := "rows.0", value := "!-" } (.loose 0)
    (∀ task ∈ tasks, task.Respects home) ∧
      stage.carried.map (fun c => (c.location.text, (stage.rebase c.location).text)) =
        [("rows", "rows"), ("rows.1", "rows.0")] ∧
      ∀ c ∈ stage.carried, ∃ value, stage.target.value.at? c.location = some value ∧
        (¬ stage.Encloses c.location →
          stage.turn.root.at? (stage.rebase c.location) = some value) := by
  intro home tasks stage
  have hr : ∀ task ∈ tasks, task.Respects home := by
    intro task ht
    simp only [tasks, List.mem_cons, List.not_mem_nil, or_false] at ht
    rcases ht with rfl | rfl
    · rfl
    · rfl
  have hk := contexts_keep_values {} [] (fun _ => RecordType.sheet.fresh) home tasks
    { path := "rows.0", value := "!-" } (.loose 0) hr rfl
  refine ⟨hr, by decide +kernel, fun c hc => ?_⟩
  obtain ⟨value, hv, hm, -⟩ := hk.2 c hc
  exact ⟨value, hv, hm⟩

end Workspace

end FieldPatch
