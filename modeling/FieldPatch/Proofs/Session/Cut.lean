import FieldPatch.Proofs.Session.Channels

namespace FieldPatch

namespace Settings

/-- The settings with the fault latch on or off. -/
def latching (on : Bool) (s : Settings) : Settings := { s with latchFaults := on }

theorem covers_latching (s : Settings) (on : Bool) : s.Covers (s.latching on) := by
  intro c hc
  cases c <;> exact hc

theorem lets_latching (s : Settings) (on : Bool) : (s.latching on).lets = s.lets := by
  funext d
  unfold lets
  cases d.channel <;> rfl

end Settings

namespace Session

def latching (on : Bool) (s : Session) : Session := s.under (s.settings.latching on)

/-- No fault of the file is on the session. -/
def Clear (file : FileId) (s : Session) : Prop := s.lastFile = some file → s.faulted = false

end Session

def Turn.latching (on : Bool) (turn : Turn) : Turn :=
  { turn with session := turn.session.latching on }

def ScriptRun.latching (on : Bool) (run : ScriptRun) : ScriptRun :=
  { run with session := run.session.latching on }

namespace Session

variable {s : Session} {base : Request} {target : Object}

theorem Clear.free {file : FileId} (h : s.Clear file) : ¬ s.Latched file := by
  rintro ⟨hl, hf, -⟩
  rw [h hl] at hf
  contradiction

/-- The settings let through what an edit under them reports. -/
theorem filter_notes_edit (request : Request) (target : Object) (s : Session) :
    (s.edit request target).notes.filter s.settings.lets = (s.edit request target).notes :=
  (congrArg Turn.notes (edit_under (Settings.Covers.refl s.settings) rfl request target)).symm

theorem edit_latching (request : Request) (target : Object)
    (h : s.Clear (.ofEdit request target.id)) (on : Bool) :
    (s.latching on).edit request target = (s.edit request target).latching on := by
  have hl : (s.latching on).Clear (.ofEdit request target.id) := h
  have he := edit_under_of_free (s.settings.covers_latching on) h.free hl.free
  have hn := filter_notes_edit request target s
  rw [Turn.under, Settings.lets_latching, hn] at he
  rw [Turn.latching, latching, latching, settings_edit]
  exact he

theorem faulted_edit (request : Request) (target : Object)
    (h : s.Clear (.ofEdit request target.id)) :
    (s.edit request target).session.faulted = (s.edit request target).outcome.isFault := by
  have hs := s.edit_handles request target
  generalize s.edit request target = turn at hs
  cases hs with
  | skipped notes latched => exact absurd latched h.free
  | ignored notes free void =>
    change (s.inFile _).faulted = false
    unfold inFile
    split
    · exact h ‹_›
    · rfl
  | ran notes free given => rfl

/-- As long as no step faults, the latch makes no difference. -/
theorem applySteps_latching (h : s.Clear (.ofEdit base target.id)) (on : Bool)
    (count position : Nat) {steps : List ScriptStep}
    (hn : ∀ o ∈ (s.applySteps base count position target steps).report.outcomes,
      o.isFault = false) :
    (s.latching on).applySteps base count position target steps =
        (s.applySteps base count position target steps).latching on ∧
      (s.applySteps base count position target steps).session.Clear (.ofEdit base target.id) := by
  induction steps generalizing s position target with
  | nil => exact ⟨rfl, h⟩
  | cons step rest ih =>
    let turn := s.edit (step.request base) target
    have ho : turn.outcome.isFault = false := hn _ List.mem_cons_self
    have hf : turn.session.faulted = false := (faulted_edit (step.request base) target h).trans ho
    have he := edit_latching (step.request base) target h on
    have hc : turn.session.Clear (.ofEdit base target.id) := fun _ => hf
    obtain ⟨hr, hc⟩ := @ih turn.session { target with value := turn.root } hc (position + 1)
      fun o hm => hn o (List.mem_cons_of_mem _ hm)
    refine ⟨?_, hc⟩
    simp only [applySteps_cons, he]
    exact congrArg (ScriptRun.append (.ofTurn (.applying base position count step.line) turn)) hr

/-- A session that is latched does none of the steps. -/
theorem applySteps_latched (target : Object) (h : s.Latched (.ofEdit base target.id))
    (count position : Nat) (steps : List ScriptStep) :
    let run := s.applySteps base count position target steps
    run.report.outcomes = List.replicate steps.length .skipped ∧ run.root = target.value ∧
      run.session = s := by
  induction steps generalizing position with
  | nil => exact ⟨rfl, rfl, rfl⟩
  | cons step rest ih =>
    obtain ⟨ho, hr, hs⟩ := ih (position + 1)
    have he : s.edit (step.request base) target =
        ⟨.skipped, target.value, s, s.skipNotes (step.request base)⟩ := edit_of_latched h
    simp only [applySteps_cons, he]
    exact ⟨congrArg (List.cons Outcome.skipped) ho, hr, hs⟩

/-- A fault ends the script as if the steps behind it were cut off. -/
theorem applySteps_cut (h : s.Clear (.ofEdit base target.id)) (count position : Nat)
    {first : List ScriptStep} {step : ScriptStep} (rest : List ScriptStep)
    (hn : ∀ o ∈ (s.applySteps base count position target first).report.outcomes,
      o.isFault = false) :
    let run := s.applySteps base count position target first
    let turn := run.session.edit (step.request base) { target with value := run.root }
    let latched := (s.latching true).applySteps base count position target (first ++ step :: rest)
    turn.outcome.isFault = true →
      latched.report.outcomes =
          run.report.outcomes ++ turn.outcome :: List.replicate rest.length .skipped ∧
        latched.root = turn.root ∧ latched.session = turn.session.latching true := by
  intro run turn latched hf
  obtain ⟨hr, hc⟩ := applySteps_latching h true count position hn
  have he := edit_latching (step.request base) { target with value := run.root } hc true
  have hs := faulted_edit (step.request base) { target with value := run.root } hc
  have hl : (turn.session.latching true).Latched (.ofEdit base target.id) :=
    ⟨lastFile_edit (step.request base) _ run.session, hs.trans hf, rfl⟩
  obtain ⟨hskip, hroot, hsession⟩ := applySteps_latched { target with value := turn.root } hl count
    (position + first.length + 1) rest
  have ha : latched = (run.latching true).append ((ScriptRun.ofTurn
      (.applying base (position + first.length) count step.line) (turn.latching true)).append
        ((turn.session.latching true).applySteps base count (position + first.length + 1)
          { target with value := turn.root } rest)) := by
    have ha := applySteps_append (s.latching true) base count position target first (step :: rest)
    rw [hr] at ha
    refine ha.trans (congrArg _ ?_)
    exact congrArg (fun t : Turn => (ScriptRun.ofTurn _ t).append (t.session.applySteps base count
      (position + first.length + 1) { target with value := t.root } rest)) he
  rw [ha]
  refine ⟨?_, hroot, hsession⟩
  exact congrArg (fun skipped => run.report.outcomes ++ turn.outcome :: skipped) hskip

/-- With the latch on, the steps end behind the first fault. -/
theorem applySteps_until (h : s.Clear (.ofEdit base target.id)) (count position : Nat)
    {steps : List ScriptStep} {before after : List Outcome} {fault : Fault}
    (ho : (s.applySteps base count position target steps).report.outcomes =
      before ++ .faulted fault :: after) (hb : ∀ o ∈ before, o.isFault = false) :
    let cut := s.applySteps base count position target (steps.take (before.length + 1))
    let latched := (s.latching true).applySteps base count position target steps
    cut.report.outcomes = before ++ [.faulted fault] ∧
      latched.report.outcomes = before ++ .faulted fault :: List.replicate after.length .skipped ∧
      latched.root = cut.root ∧ latched.session = cut.session.latching true := by
  intro cut latched
  obtain ⟨first, step, rest, rfl, hrun, hturn, hlen⟩ := applySteps_split ho
  let run := s.applySteps base count position target first
  let turn := run.session.edit (step.request base) { target with value := run.root }
  have htake : (first ++ step :: rest).take (before.length + 1) = first ++ [step] := by
    rw [← hrun, length_applySteps, List.take_length_add_append]
    rfl
  have hcut : cut = run.append (.ofTurn (.applying base (position + first.length) count step.line)
      turn) := by
    simp only [cut, htake]
    exact applySteps_concat s base count position target first step
  have hfault : turn.outcome.isFault = true := by
    rw [hturn]
    rfl
  obtain ⟨hlo, hlr, hls⟩ := applySteps_cut h count position rest (hrun ▸ hb) hfault
  rw [hrun, hturn, hlen] at hlo
  rw [hcut]
  refine ⟨?_, hlo, hlr, hls⟩
  change run.report.outcomes ++ [turn.outcome] = _
  rw [hrun, hturn]

/-- Of two sessions that differ in the latch only, both give one outcome for each step of a script.
If a step faults, the one with the latch skips the steps behind the first fault, and is left where
the other one is after that step; if none does, both do the same. -/
theorem latch_cuts_script (s : Session) (script : Script) (hk : script.removed = false)
    (base : Request) (target : Object) (hc : s.Clear (.ofEdit base target.id)) :
    let free := (s.latching false).applyScript script base target
    let latched := (s.latching true).applyScript script base target
    (free.report.outcomes.length = script.steps.length ∧
        latched.report.outcomes.length = script.steps.length) ∧
      (∀ before fault after, free.report.outcomes = before ++ .faulted fault :: after →
        (∀ o ∈ before, o.isFault = false) →
        let cut := (s.latching false).applyScript (script.upTo (before.length + 1)) base target
        cut.report.outcomes = before ++ [.faulted fault] ∧
          latched.report.outcomes =
            before ++ .faulted fault :: List.replicate after.length .skipped ∧
          latched.root = cut.root ∧ latched.session = cut.session.latching true) ∧
      ((∀ o ∈ free.report.outcomes, o.isFault = false) → latched = free.latching true) := by
  intro free latched
  have hclear : (s.latching false).Clear (.ofEdit base target.id) := hc
  have hf : free = (s.latching false).applySteps base script.steps.length 1 target script.steps :=
    applyScript_of_kept _ base target script hk
  have hl : latched = (s.latching true).applySteps base script.steps.length 1 target script.steps :=
    applyScript_of_kept _ base target script hk
  refine ⟨⟨?_, ?_⟩, ?_, ?_⟩
  · rw [hf, length_applySteps]
  · rw [hl, length_applySteps]
  · intro before fault after ho hb cut
    rw [hf] at ho
    obtain ⟨hco, hlo, hlr, hls⟩ := applySteps_until hclear script.steps.length 1 ho hb
    -- The steps of the shorter script are announced as fewer, which is all that tells them apart.
    have hcut : cut = (s.latching false).applySteps base _ 1 target
        (script.steps.take (before.length + 1)) :=
      applyScript_of_kept _ base target (script.upTo (before.length + 1)) hk
    obtain ⟨hp, hr, hs⟩ := applySteps_elsewhere (s.latching false) base script.steps.length 1 target
      (script.steps.take (before.length + 1)).length 1 (script.steps.take (before.length + 1))
    rw [hl, hcut]
    exact ⟨hp ▸ hco, hlo, hlr.trans hr.symm, hls.trans (congrArg _ hs.symm)⟩
  · intro hn
    rw [hf] at hn
    rw [hl, hf]
    exact (applySteps_latching hclear true _ 1 hn).1

/-- An ignored step, a fault behind a number inserted, and steps that the latch skips. -/
theorem latch_cuts_numbers :
    let s := (start .verbose []).1
    let script : Script := { steps := [⟨1, "numbers.0", "8 !+"⟩, ⟨2, "numbers", ""⟩,
      ⟨3, "numbers.*", "abc !+"⟩, ⟨4, "numbers", ""⟩, ⟨5, "numbers.0", "!-"⟩] }
    let target : Object := ⟨.loose 0, RecordType.numbered.fresh⟩
    let free := (s.latching false).applyScript script {} target
    let latched := (s.latching true).applyScript script {} target
    let cut := (s.latching false).applyScript (script.upTo 3) {} target
    script.removed = false ∧ s.Clear (.ofEdit {} target.id) ∧ ∃ fault,
      free.report.outcomes = [.applied, .ignored, .faulted fault, .ignored, .removed] ∧
      latched.report.outcomes = [.applied, .ignored, .faulted fault, .skipped, .skipped] ∧
      latched.root = cut.root ∧ latched.session = cut.session.latching true := by
  intro s script target free latched cut
  have hk : script.removed = false := rfl
  have hc : s.Clear (.ofEdit {} target.id) := fun h => by contradiction
  have hm : free.report.outcomes.map Outcome.ctorIdx = [2, 0, 7, 0, 4] := by decide +kernel
  obtain ⟨fault, ho⟩ : ∃ fault, free.report.outcomes =
      [.applied, .ignored, .faulted fault, .ignored, .removed] := by
    obtain ⟨first, _, ho, h, hm⟩ := List.map_eq_cons_iff.mp hm
    obtain ⟨second, _, rfl, h', hm⟩ := List.map_eq_cons_iff.mp hm
    obtain ⟨third, _, rfl, hf, hm⟩ := List.map_eq_cons_iff.mp hm
    obtain ⟨fourth, _, rfl, hi, hm⟩ := List.map_eq_cons_iff.mp hm
    obtain ⟨fifth, _, rfl, hr, hm⟩ := List.map_eq_cons_iff.mp hm
    obtain rfl := List.map_eq_nil_iff.mp hm
    cases first <;> cases h
    cases second <;> cases h'
    cases third <;> cases hf
    cases fourth <;> cases hi
    cases fifth <;> cases hr
    exact ⟨_, ho⟩
  have hb : ∀ o ∈ [Outcome.applied, .ignored], o.isFault = false := by
    intro o h
    simp only [List.mem_cons, List.not_mem_nil, or_false] at h
    rcases h with rfl | rfl
    · rfl
    · rfl
  obtain ⟨-, hcut, -⟩ := latch_cuts_script s script hk {} target hc
  obtain ⟨-, hl, hr, hs⟩ := hcut [.applied, .ignored] fault [.ignored, .removed] ho hb
  exact ⟨hk, hc, fault, ho, hl, hr, hs⟩

end Session

end FieldPatch
