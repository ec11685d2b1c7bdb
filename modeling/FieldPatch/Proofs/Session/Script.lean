import FieldPatch.Script
import FieldPatch.Proofs.Session.Turn

namespace FieldPatch

/-- What the step asks for, the rest being as in the base request of its script. -/
def ScriptStep.request (base : Request) (step : ScriptStep) : Request :=
  { base with path := step.path, value := step.value }

/-- The script cut off behind its first `n` steps. -/
def Script.upTo (n : Nat) (script : Script) : Script :=
  { script with steps := script.steps.take n }

namespace ScriptRun

/-- The run of a single step, announced by an event. -/
def ofTurn (said : Event) (turn : Turn) : ScriptRun :=
  ⟨{ outcomes := [turn.outcome] }, turn.root, turn.session, said :: turn.notes.map .diagnostic⟩

/-- One run, and then another that goes on from it. -/
def append (first second : ScriptRun) : ScriptRun :=
  { second with
    report := { second.report with outcomes := first.report.outcomes ++ second.report.outcomes }
    events := first.events ++ second.events }

theorem append_assoc (a b c : ScriptRun) : (a.append b).append c = a.append (b.append c) := by
  simp only [append, List.append_assoc]

end ScriptRun

namespace Session

variable (s : Session) (base : Request) (count position : Nat) (target : Object)

theorem applySteps_cons (step : ScriptStep) (rest : List ScriptStep) :
    let turn := s.edit (step.request base) target
    s.applySteps base count position target (step :: rest) =
      (ScriptRun.ofTurn (.applying base position count step.line) turn).append
        (turn.session.applySteps base count (position + 1) { target with value := turn.root }
          rest) :=
  rfl

theorem applySteps_append (first second : List ScriptStep) :
    let run := s.applySteps base count position target first
    s.applySteps base count position target (first ++ second) =
      run.append (run.session.applySteps base count (position + first.length)
        { target with value := run.root } second) := by
  induction first generalizing s position target with
  | nil => rfl
  | cons step rest ih =>
    have hr := ih (s.edit (step.request base) target).session (position + 1)
      { target with value := (s.edit (step.request base) target).root }
    have hn : position + 1 + rest.length = position + (step :: rest).length := by
      rw [List.length_cons]
      omega
    simp only [List.cons_append, applySteps_cons]
    rw [hr, hn, ScriptRun.append_assoc]
    rfl

theorem applySteps_concat (first : List ScriptStep) (step : ScriptStep) :
    let run := s.applySteps base count position target first
    s.applySteps base count position target (first ++ [step]) =
      run.append (.ofTurn (.applying base (position + first.length) count step.line)
        (run.session.edit (step.request base) { target with value := run.root })) := by
  intro run
  refine (applySteps_append s base count position target first [step]).trans (congrArg _ ?_)
  simp only [applySteps, ScriptRun.ofTurn, ScriptStep.request, List.append_nil]
  rfl

theorem length_applySteps (steps : List ScriptStep) :
    (s.applySteps base count position target steps).report.outcomes.length = steps.length := by
  induction steps generalizing s position target with
  | nil => rfl
  | cons step rest ih => exact congrArg (· + 1) (ih _ _ _)

/-- The step that an outcome belongs to, with the steps before it and those behind it. -/
theorem applySteps_split {s : Session} {base : Request} {count position : Nat} {target : Object}
    {steps : List ScriptStep} {before after : List Outcome} {outcome : Outcome}
    (h : (s.applySteps base count position target steps).report.outcomes =
      before ++ outcome :: after) :
    ∃ first step rest, steps = first ++ step :: rest ∧
      let run := s.applySteps base count position target first
      run.report.outcomes = before ∧
        (run.session.edit (step.request base) { target with value := run.root }).outcome = outcome ∧
        rest.length = after.length := by
  induction before generalizing s position target steps with
  | nil =>
    cases steps with
    | nil => contradiction
    | cons step rest =>
      obtain ⟨ho, hr⟩ := List.cons.inj h
      exact ⟨[], step, rest, rfl, rfl, ho, hr ▸ (length_applySteps _ _ _ _ _ rest).symm⟩
  | cons o before ih =>
    cases steps with
    | nil => contradiction
    | cons head steps =>
      obtain ⟨ho, hr⟩ := List.cons.inj h
      obtain ⟨first, step, rest, rfl, hb, hs, hl⟩ := ih hr
      refine ⟨head :: first, step, rest, rfl, ?_, hs, hl⟩
      rw [← ho, ← hb]
      rfl

theorem applyScript_of_kept (script : Script) (h : script.removed = false) :
    s.applyScript script base target =
      s.applySteps base script.steps.length 1 target script.steps :=
  if_neg (Bool.eq_false_iff.mp h)

/-- The steps make the same of the session and the config wherever they stand in a script. -/
theorem applySteps_elsewhere (count' position' : Nat) (steps : List ScriptStep) :
    let here := s.applySteps base count position target steps
    let there := s.applySteps base count' position' target steps
    there.report = here.report ∧ there.root = here.root ∧ there.session = here.session := by
  induction steps generalizing s position position' target with
  | nil => exact ⟨rfl, rfl, rfl⟩
  | cons step rest ih =>
    let turn := s.edit (step.request base) target
    obtain ⟨hp, hr, hs⟩ := ih turn.session (position + 1) { target with value := turn.root }
      (position' + 1)
    have ho := congrArg (fun report : ScriptReport =>
      { report with outcomes := turn.outcome :: report.outcomes }) hp
    exact ⟨ho, hr, hs⟩

end Session

end FieldPatch
