import FieldPatch.Proofs.Session.Calls

namespace FieldPatch

/-- A depth with no context leads to a fault that names it, with the number of contexts. -/
theorem FieldPath.destination_of_beyond {root : Value RecordType} {contexts : ContextStack}
    {path : FieldPath} (h : contexts.size < path.contextDepth) :
    path.destination root contexts =
      .error (.contextDepth path.contextDepth contexts.size) := by
  have hu : path.usesContext = true := usesContext_iff.mpr (Nat.zero_lt_of_lt h)
  have hg : contexts.get? path.contextDepth = none := by
    rw [ContextStack.get?]
    split
    · rfl
    · exact List.getElem?_eq_none (Nat.le_sub_one_of_lt h)
  have ho : path.origin root contexts =
      .error (.contextDepth path.contextDepth contexts.size) := by
    unfold origin
    rw [if_pos hu, hg]
  rw [destination, ho]

theorem FieldPath.front_of_beyond {contexts : ContextStack} {path : FieldPath}
    (h : contexts.size < path.contextDepth) : path.front contexts = contexts := by
  rw [front]
  split
  · rw [List.take_of_length_le (Nat.le_of_lt h)]
  · rfl

namespace Stage

/-- What the depth of its path says of the contexts after an edit. -/
structure Disciplined (stage : Stage) (path : FieldPath) : Prop where
  /-- Without a context of that depth the edit faults, and the contexts stay. -/
  beyond : stage.contexts.size < path.contextDepth →
    stage.turn.outcome = .faulted (.contextDepth path.contextDepth stage.contexts.size) ∧
      stage.turn.session.contexts = stage.contexts
  /-- The contexts up to that depth are left, and at most one comes on top, if the edit opens it. -/
  within : 1 ≤ path.contextDepth → path.contextDepth ≤ stage.contexts.size →
    ¬ (path.segments = [] ∧ stage.turn.outcome = .removed) →
    ∃ opened : List Context, opened.length ≤ 1 ∧ (stage.turn.opens = false → opened = []) ∧
      stage.turn.session.contexts.entries =
        (stage.contexts.entries.take path.contextDepth).map (Context.moved stage.rebase) ++ opened
  /-- The context itself is lost with its slot. -/
  removed : 1 ≤ path.contextDepth → path.contextDepth ≤ stage.contexts.size →
    path.segments = [] → stage.turn.outcome = .removed →
    stage.turn.session.contexts.entries =
      (stage.contexts.entries.take (path.contextDepth - 1)).map (Context.moved stage.rebase)
  /-- A path without markers leaves its own slot alone, or a front part of the contexts. -/
  fromRoot : path.contextDepth = 0 →
    (stage.turn.session.contexts.size = 1 ∧ stage.EndsOnTop) ∨
      ∃ n, stage.turn.session.contexts.entries =
        (stage.contexts.entries.take n).map (Context.moved stage.rebase)
  /-- An edit that opens its slot leaves it on top. -/
  top : stage.turn.opens = true → stage.EndsOnTop

variable {stage : Stage} {path : FieldPath}

theorem faults_beyond (hr : stage.path? = some path)
    (h : stage.contexts.size < path.contextDepth) :
    stage.turn.outcome = .faulted (.contextDepth path.contextDepth stage.contexts.size) ∧
      stage.turn.session.contexts = stage.contexts := by
  have hd : path.destination stage.target.value stage.contexts =
      .error (.contextDepth path.contextDepth stage.contexts.size) :=
    FieldPath.destination_of_beyond h
  cases stage.course with
  | passed unread root contexts closed => simp [unread] at hr
  | astray read leads outcome root contexts =>
    obtain rfl := Option.some.inj (read.symm.trans hr)
    obtain rfl := Except.error.inj (leads.symm.trans hd)
    exact ⟨outcome, contexts.trans (FieldPath.front_of_beyond h)⟩
  | arrived read leads change account contexts last =>
    obtain rfl := Option.some.inj (read.symm.trans hr)
    have he := leads.symm.trans hd
    contradiction

theorem disciplined (hl : stage.contexts.Layered) (hr : stage.path? = some path) :
    stage.Disciplined path := by
  obtain ⟨n, opened, hc⟩ := carries hl
  have hu (hd : 1 ≤ path.contextDepth) : path.usesContext = true :=
    FieldPath.usesContext_iff.mpr hd
  have he := hc.entries
  constructor
  case beyond => exact faults_beyond hr
  case within =>
    intro hd _ hn
    rw [hc.whole path hr (hu hd) hn] at he
    exact ⟨opened, hc.single, hc.closed, he⟩
  case removed =>
    intro hd _ hs ho
    have hn : n = path.contextDepth - 1 := by
      have := hc.dropped path hr (hu hd) hs ho
      omega
    have hf : stage.turn.opens = false := closed_of fun p => by rw [ho]; rfl
    rwa [hn, hc.closed hf, List.append_nil] at he
  case fromRoot =>
    intro hz
    cases ho : stage.turn.opens with
    | true =>
      -- An edit that opens its slot at the root starts a chain of its own.
      have hn : n = 0 := by rw [hc.chain ho, depth, hr, Option.map_some, Option.getD_some, hz]
      have ht := hc.top ho
      obtain ⟨c, p, htop, -⟩ := hc.top ho
      rw [hn, List.take_zero, List.map_nil, List.nil_append] at he
      have hp : opened ≠ [] := by
        rintro rfl
        rw [ContextStack.top?, he] at htop
        contradiction
      have hs : stage.turn.session.contexts.size = 1 := by
        rw [ContextStack.size, he]
        exact Nat.le_antisymm hc.single (List.length_pos_iff.mpr hp)
      exact .inl ⟨hs, ht⟩
    | false =>
      rw [hc.closed ho, List.append_nil] at he
      exact .inr ⟨n, he⟩
  case top => exact hc.top

end Stage

namespace Session

/-- In whatever state a session is, an edit that it carries out leaves the contexts as the depth of
its path says. -/
theorem edit_disciplined (settings : Settings) (tags : TagTable) (calls : List Call)
    (request : Request) (target : Object) (path : FieldPath)
    (ha : Stage.Attempted ⟨(start settings tags).1.after calls, target, request⟩)
    (hp : FieldPath.parse request.path = .ok path) :
    Stage.Disciplined ⟨(start settings tags).1.after calls, target, request⟩ path := by
  refine Stage.disciplined (layered_inFile (layered_after settings tags calls) _) ?_
  rw [Stage.path?_of_attempted ha, hp]
  rfl

/-- With the rows of a sheet and one of them as contexts, a row inserted before that one comes on
top of both. -/
theorem row_comes_on_top :
    let target : Object := ⟨.loose 0, RecordType.sheet.fresh⟩
    let calls : List Call :=
      [.edit { path := "rows", value := "!^" } target,
        .edit { path := "^.1", value := "!^" } target]
    let stage : Stage :=
      ⟨(start {} []).1.after calls, target, { path := "^^", value := "!+" }⟩
    stage.Attempted ∧ FieldPath.parse "^^" = .ok ⟨2, []⟩ ∧ stage.Disciplined ⟨2, []⟩ ∧
      stage.contexts.entries.map (fun c => c.location.text) = ["rows", "rows.1"] ∧
      stage.turn.session.contexts.entries.map (fun c => c.location.text) =
        ["rows", "rows.2", "rows.1"] := by
  intro target calls stage
  have ha : stage.Attempted := by decide +kernel
  have hp : FieldPath.parse "^^" = .ok ⟨2, []⟩ := by rfl
  exact ⟨ha, hp, edit_disciplined {} [] calls _ target _ ha hp, by decide +kernel,
    by decide +kernel⟩

end Session

end FieldPatch
