import FieldPatch.Proofs.Edit.Beside
import FieldPatch.Proofs.Edit.Layers
import FieldPatch.Proofs.Session.Turn

namespace FieldPatch

structure Stage where
  session : Session
  target : Object
  request : Request

/-- The edit has set the slot that it came to as a context. -/
def Turn.opens (t : Turn) : Bool := t.session.last.any fun p => p.opens t.outcome

namespace Stage

def contexts (stage : Stage) : ContextStack :=
  (stage.session.inFile (.ofEdit stage.request stage.target.id)).contexts

def Attempted (stage : Stage) : Prop :=
  ¬ stage.session.Latched (.ofEdit stage.request stage.target.id) ∧
    Session.isVoid stage.request = false

instance (stage : Stage) : Decidable stage.Attempted := by
  unfold Attempted Session.Latched
  infer_instance

def turn (stage : Stage) : Turn := stage.session.edit stage.request stage.target

/-- The path that the edit follows, if it is attempted and its path can be read. -/
def path? (stage : Stage) : Option FieldPath :=
  if stage.Attempted then (FieldPath.parse stage.request.path).toOption else none

def destination? (stage : Stage) : Option Destination :=
  stage.path?.bind fun path => (path.destination stage.target.value stage.contexts).toOption

def op (stage : Stage) : Operation := (Operation.split stage.request.value).1

def input (stage : Stage) : String := (Operation.split stage.request.value).2

/-- The place that the edit is to change: the list or map itself for an insertion or removal there,
the slot for every other operation. -/
def place? (stage : Stage) : Option Location :=
  stage.destination?.map (Destination.changes stage.op)

/-- Where a location of the config is after the edit. -/
def rebase (stage : Stage) (l : Location) : Location :=
  match stage.destination? with
  | some d => d.rebase stage.op stage.input l
  | none => l

variable {stage : Stage}

/-- How the edit comes out. Without a path to follow nothing happens to config and contexts; a path
that leads nowhere leaves the contexts up to the one that it starts at; at a destination the edit is
as its account says. -/
inductive Course (stage : Stage) : Prop
  | passed (unread : stage.path? = none) (root : stage.turn.root = stage.target.value)
      (contexts : stage.turn.session.contexts = stage.contexts) (closed : stage.turn.opens = false)
  | astray {path : FieldPath} {fault : Fault} (read : stage.path? = some path)
      (leads : path.destination stage.target.value stage.contexts = .error fault)
      (outcome : stage.turn.outcome = .faulted fault)
      (root : stage.turn.root = stage.target.value)
      (contexts : stage.turn.session.contexts = path.front stage.contexts)
  | arrived {path : FieldPath} {d : Destination} {loss : Loss} {done : Editing}
      (read : stage.path? = some path)
      (leads : path.destination stage.target.value stage.contexts = .ok d)
      (change : d.Change stage.op stage.input stage.target.value loss stage.turn.root)
      (account : (d.site stage.op stage.input stage.contexts path).Account loss
        stage.turn.outcome done)
      (contexts : stage.turn.session.contexts = done.contexts)
      (last : stage.turn.session.last = some done.progress)

theorem opens_of_last {t : Turn} {p : Progress} (h : t.session.last = some p) :
    t.opens = p.opens t.outcome := by rw [Turn.opens, h, Option.any_some]

theorem closed_of {t : Turn} (h : ∀ p : Progress, p.opens t.outcome = false) :
    t.opens = false := by
  cases hl : t.session.last with
  | none => rw [Turn.opens, hl, Option.any_none]
  | some p => rw [opens_of_last hl, h p]

theorem path?_of_attempted (h : stage.Attempted) :
    stage.path? = (FieldPath.parse stage.request.path).toOption := if_pos h

theorem path?_of_not_attempted (h : ¬ stage.Attempted) : stage.path? = none := if_neg h

/-- An edit that is skipped or ignored leaves config and contexts as they are. -/
theorem course_of_not_attempted (h : ¬ stage.Attempted) : stage.Course := by
  by_cases hl : stage.session.Latched (.ofEdit stage.request stage.target.id)
  · obtain ⟨notes, he⟩ := Session.edit_latched hl
    have ht : stage.turn = ⟨.skipped, stage.target.value, stage.session, notes⟩ := he
    have hc : stage.contexts = stage.session.contexts := by
      rw [contexts, Session.inFile, if_pos hl.1]
    exact .passed (path?_of_not_attempted h) (by rw [ht]) (by rw [ht, hc])
      (closed_of fun p => by rw [ht]; rfl)
  · have hv : Session.isVoid stage.request = true := by
      cases hv : Session.isVoid stage.request with
      | true => rfl
      | false => exact absurd ⟨hl, hv⟩ h
    obtain ⟨notes, he⟩ := Session.edit_void hl hv
    have ht : stage.turn = ⟨.ignored, stage.target.value,
        stage.session.inFile (.ofEdit stage.request stage.target.id), notes⟩ := he
    exact .passed (path?_of_not_attempted h) (by rw [ht]) (by rw [ht]; rfl)
      (closed_of fun p => by rw [ht]; rfl)

theorem course (stage : Stage) : stage.Course := by
  by_cases ha : stage.Attempted
  · obtain ⟨notes, he⟩ := Session.edit_given ha.1 ha.2
    let run := stage.session.runEdit stage.request stage.target
    have ht : stage.turn = ⟨run.1, run.2.root,
        (stage.session.inFile (.ofEdit stage.request stage.target.id)).afterRun run, notes⟩ := he
    have hl : stage.turn.session.last = some run.2.progress := by rw [ht]; rfl
    cases hp : FieldPath.parse stage.request.path with
    | error fault =>
      obtain ⟨ho, hr, hc⟩ : run.1 = .faulted (.path fault) ∧ run.2.root = stage.target.value ∧
        run.2.contexts = stage.contexts := Editing.run_unread hp
      have hn : stage.path? = none := by rw [path?_of_attempted ha, hp]; rfl
      exact .passed hn (by rw [ht, hr]) (by rw [ht]; exact hc)
        (closed_of fun p => by rw [ht, ho]; rfl)
    | ok path =>
      have hn : stage.path? = some path := by rw [path?_of_attempted ha, hp]; rfl
      cases hd : path.destination stage.target.value stage.contexts with
      | error fault =>
        obtain ⟨ho, hr, hc⟩ : run.1 = .faulted fault ∧ run.2.root = stage.target.value ∧
          run.2.contexts = path.front stage.contexts := Editing.run_astray hp hd
        exact .astray hn hd (by rw [ht, ho]) (by rw [ht, hr]) (by rw [ht]; exact hc)
      | ok d =>
        obtain ⟨loss, hg, hs⟩ : ∃ loss,
          d.Change stage.op stage.input stage.target.value loss run.2.root ∧
            (d.site stage.op stage.input stage.contexts path).Account loss run.1 run.2 :=
          Editing.run_account hp hd
        exact .arrived hn hd (by rwa [ht]) (by rwa [ht]) (by rw [ht]; rfl) hl
  · exact course_of_not_attempted ha

/-- The number of contexts that the edit starts behind. -/
def depth (stage : Stage) : Nat := (stage.path?.map FieldPath.contextDepth).getD 0

/-- The location is the place that the edit is to change, or around it. -/
def Encloses (stage : Stage) (l : Location) : Prop :=
  ∃ place, stage.place? = some place ∧ place.startsWith l

/-- The newest context is the slot that the edit came to. -/
def EndsOnTop (stage : Stage) : Prop :=
  ∃ c p, stage.turn.session.contexts.top? = some c ∧ stage.turn.session.last = some p ∧
    c.location = p.location ∧ p.targetKind = some c.kind

/-- How the contexts after an edit come from those before it: the first `n`, where they are now, and
on top of them what the edit opened. -/
structure Carries (stage : Stage) (n : Nat) (opened : List Context) : Prop where
  entries : stage.turn.session.contexts.entries =
    (stage.contexts.entries.take n).map (Context.moved stage.rebase) ++ opened
  single : opened.length ≤ 1
  closed : stage.turn.opens = false → opened = []
  chain : stage.turn.opens = true → n = stage.depth
  top : stage.turn.opens = true → stage.EndsOnTop
  whole : ∀ path, stage.path? = some path → path.usesContext = true →
    ¬ (path.segments = [] ∧ stage.turn.outcome = .removed) → n = path.contextDepth
  dropped : ∀ path, stage.path? = some path → path.usesContext = true → path.segments = [] →
    stage.turn.outcome = .removed → n + 1 = path.contextDepth
  beside : ∀ c ∈ stage.contexts.entries.take n, ∀ value,
    stage.target.value.at? c.location = some value → ¬ stage.Encloses c.location →
      stage.turn.root.at? (stage.rebase c.location) = some value

theorem rebase_of_destination {d : Destination} (h : stage.destination? = some d) :
    stage.rebase = d.rebase stage.op stage.input := by
  funext l
  simp only [rebase, h]

theorem rebase_of_astray (h : stage.destination? = none) : stage.rebase = id := by
  funext l
  simp only [rebase, h, id]

theorem moved_id : Context.moved id = id := rfl

theorem destination?_of_read {path : FieldPath} (h : stage.path? = some path) :
    stage.destination? = (path.destination stage.target.value stage.contexts).toOption := by
  rw [destination?, h, Option.bind_some]

/-- An edit that comes to no place leaves a front part of the contexts, and all else as it was. -/
theorem carries_of_still {n : Nat} (lost : stage.destination? = none)
    (root : stage.turn.root = stage.target.value)
    (contexts : stage.turn.session.contexts.entries = stage.contexts.entries.take n)
    (closed : stage.turn.opens = false)
    (kept : ∀ path, stage.path? = some path → stage.turn.outcome ≠ .removed ∧
      (path.usesContext = true → n = path.contextDepth)) : stage.Carries n [] := by
  have hm : stage.rebase = id := rebase_of_astray lost
  exact {
    entries := by rw [contexts, hm, moved_id, List.map_id, List.append_nil]
    single := Nat.zero_le 1
    closed := fun _ => rfl
    chain := fun hc => Bool.noConfusion (closed.symm.trans hc)
    top := fun hc => Bool.noConfusion (closed.symm.trans hc)
    whole := fun path hp hu _ => (kept path hp).2 hu
    dropped := fun path hp _ _ hr => absurd hr (kept path hp).1
    beside := fun c _ value hv _ => by rwa [hm, root] }

/-- Every edit hands on a front part of layered contexts, and opens at most one. -/
theorem carries (h : stage.contexts.Layered) : ∃ n opened, stage.Carries n opened := by
  cases stage.course with
  | passed unread root contexts closed =>
    have hd : stage.destination? = none := by rw [destination?, unread, Option.bind_none]
    have hc : stage.turn.session.contexts.entries =
        stage.contexts.entries.take stage.contexts.size := by
      rw [contexts, ContextStack.size, List.take_length]
    exact ⟨_, _, carries_of_still hd root hc closed fun path hp => by simp [unread] at hp⟩
  | @astray path fault read leads outcome root contexts =>
    have hd : stage.destination? = none := by rw [destination?_of_read read, leads]; rfl
    have closed : stage.turn.opens = false := closed_of fun p => by rw [outcome]; rfl
    let n := if path.usesContext then path.contextDepth else stage.contexts.size
    have hc : stage.turn.session.contexts.entries = stage.contexts.entries.take n := by
      simp only [contexts, FieldPath.front, n]
      split
      · rfl
      · rw [ContextStack.size, List.take_length]
    refine ⟨n, _, carries_of_still hd root hc closed fun p hp => ⟨fun hr => ?_, fun hu => ?_⟩⟩
    · rw [outcome] at hr
      contradiction
    · obtain rfl := Option.some.inj (hp.symm.trans read)
      exact if_pos hu
  | @arrived path d loss done read leads change account contexts last =>
    obtain ⟨n, opened, ha⟩ := account.handsOn h leads change
    have hd : stage.destination? = some d := by rw [destination?_of_read read, leads]; rfl
    have hm : stage.rebase = d.rebase stage.op stage.input := rebase_of_destination hd
    have ho : stage.turn.opens = done.progress.opens stage.turn.outcome := opens_of_last last
    have hp (p : FieldPath) (hp : stage.path? = some p) : p = path :=
      Option.some.inj (hp.symm.trans read)
    refine ⟨n, opened, {
      entries := by rw [contexts, hm, ha.entries]
      single := ha.single
      closed := fun hc => ha.closed (ho ▸ hc)
      chain := fun hc => by rw [ha.chain (ho ▸ hc), depth, read, Option.map_some, Option.getD_some]
      top := fun hc => ?_
      whole := fun p hr hu hn => by
        obtain rfl := hp p hr
        exact ha.whole hu hn
      dropped := fun p hr hu hs hc => by
        obtain rfl := hp p hr
        exact ha.dropped hu hs hc
      beside := fun c hc value hv hn => ?_ }⟩
    · obtain ⟨c, ht, hl, hk⟩ := ha.top (ho ▸ hc)
      exact ⟨c, done.progress, by rw [contexts, ht], last, hl, hk⟩
    · rw [hm]
      refine change.at?_rebase (ha.kept c hc) hv fun hs => hn ⟨_, ?_, hs⟩
      rw [place?, hd, Option.map_some]

end Stage

end FieldPatch
