import FieldPatch.Proofs.Edit.Origin

namespace FieldPatch

namespace Loss

variable {loss : Loss} {slot l : Location}

theorem takes_self : loss.takes slot slot = true ↔ loss = .whole := by
  cases loss with
  | none => simp [takes]
  | inside => simp [takes, Location.isInside]
  | whole => simp [takes, Location.startsWith]

theorem not_takes_of_isInside (h : slot.isInside l) : loss.takes slot l = false := by
  obtain ⟨hs, hn⟩ := Location.isInside_iff_startsWith.mp h
  rw [Bool.eq_false_iff]
  intro ht
  exact hn (Location.startsWith_antisymm hs (startsWith_of_takes ht))

end Loss

namespace Destination

variable {op : Operation} {value : String} {d : Destination} {root changed : Value RecordType}
  {loss : Loss} {l m : Location}

theorem rebase_ne_nil (op : Operation) (value : String) (d : Destination) (h : l ≠ []) :
    d.rebase op value l ≠ [] := by
  unfold rebase
  split
  · split
    · exact Location.moveIndex_ne_nil h
    · exact h
  · split
    · exact Location.moveIndex_ne_nil h
    · exact h
  · exact h

/-- Of the locations that an edit does not take away, one contains another only if it did before. -/
theorem Change.reflects (h : d.Change op value root loss changed)
    (hl : loss.takes d.slot l = false) (hm : loss.takes d.slot m = false)
    (hs : (d.rebase op value l).startsWith (d.rebase op value m)) : l.startsWith m := by
  cases h with
  | idle still => rwa [still, still] at hs
  | slot own change => rwa [rebase_of_own own, rebase_of_own own] at hs
  | makeElement place asked made held written =>
    subst asked
    rw [rebase_of_made place made] at hs
    exact Location.startsWith_of_raise hs
  | @dropElement items index i kind _ place inside asked held written =>
    subst asked
    rw [rebase_of_dropped place inside] at hs
    have he := slot_of_element place inside
    have ht (l : Location) (h : Loss.whole.takes d.slot l = false) :
        ¬ l.startsWith (d.container.child (.index i)) := by
      rw [← he]
      exact Bool.eq_false_iff.mp h
    exact Location.startsWith_of_lower (ht l hl) (ht m hm) hs
  | makeEntry place asked absent part held written =>
    rwa [rebase_of_entry place, rebase_of_entry place] at hs
  | dropEntry place asked held written =>
    rwa [rebase_of_entry place, rebase_of_entry place] at hs

/-- Unless it takes its slot away, an edit moves nothing, or makes room for a new slot. -/
theorem Change.still_or_clear (h : d.Change op value root loss changed) (hn : loss ≠ .whole) :
    (∀ l, d.rebase op value l = l) ∨ ∀ l, ¬ (d.rebase op value l).startsWith d.slot := by
  cases h with
  | idle still => exact .inl still
  | slot own change => exact .inl (rebase_of_own own value)
  | makeElement place asked made held written =>
    refine .inr fun l => ?_
    subst asked
    rw [rebase_of_made place made, Destination.slot, place]
    exact Location.not_startsWith_raise _ _ l
  | dropElement => contradiction
  | makeEntry place asked absent part held written => exact .inl (rebase_of_entry place op value)
  | dropEntry => contradiction

end Destination

namespace ContextStack

variable {stack : ContextStack} {c : Context} {slot : Location} {loss : Loss}

/-- No context of a layered stack is at or inside a slot within the newest one, but for that one. -/
theorem Layered.not_startsWith {lower : List Context} (h : Layered ⟨lower ++ [c]⟩)
    (hs : slot.startsWith c.location) : ∀ b ∈ lower, ¬ b.location.startsWith slot := by
  intro b hb hc
  have ho := (List.pairwise_append.mp h.order).2.2 b hb c (List.mem_singleton.mpr rfl)
  exact ho (Location.startsWith_trans hc hs)

theorem Layered.not_takes {lower : List Context} (h : Layered ⟨lower ++ [c]⟩)
    (hs : slot.startsWith c.location) : ∀ b ∈ lower, loss.takes slot b.location = false := by
  intro b hb
  rw [Bool.eq_false_iff]
  intro ht
  exact h.not_startsWith hs b hb (Loss.startsWith_of_takes ht)

theorem Layered.keepUntil_takes {lower : List Context} (h : Layered ⟨lower ++ [c]⟩)
    (hs : slot.startsWith c.location) :
    (⟨lower ++ [c]⟩ : ContextStack).keepUntil (loss.takes slot) =
      if loss.takes slot c.location then ⟨lower⟩ else ⟨lower ++ [c]⟩ := by
  have hl : ∀ b ∈ lower, (!loss.takes slot b.location) = true := by
    intro b hb
    rw [h.not_takes hs b hb, Bool.not_false]
  simp only [keepUntil, List.takeWhile_append_of_pos hl]
  cases ht : loss.takes slot c.location with
  | false => simp [ht]
  | true => simp [ht]

theorem Layered.keepUntil_relocate {op : Operation} {value : String} {d : Destination}
    {root changed : Value RecordType} (h : stack.Layered)
    (hg : d.Change op value root loss changed) :
    ((stack.keepUntil (loss.takes d.slot)).relocate (d.rebase op value)).Layered := by
  have hk : (stack.keepUntil (loss.takes d.slot)).Layered :=
    h.of_prefix (isPrefix_keepUntil _ stack)
  have ht (c : Context) (hc : c ∈ (stack.keepUntil (loss.takes d.slot)).entries) :
      loss.takes d.slot c.location = false := (mem_keepUntil hc).2
  refine hk.relocate (fun l hl => d.rebase_ne_nil op value hl) fun lower hl upper hu hs => ?_
  exact hg.reflects (ht lower hl) (ht upper hu) hs

end ContextStack

namespace FieldPath

variable {contexts : ContextStack} {path : FieldPath} {c : Context}

theorem front_of_context (hu : path.usesContext = true)
    (hg : contexts.get? path.contextDepth = some c) :
    path.front contexts = ⟨contexts.entries.take (path.contextDepth - 1) ++ [c]⟩ := by
  have hd := usesContext_iff.mp hu
  rw [ContextStack.get?, if_neg (by omega)] at hg
  rw [front, if_pos hu]
  obtain ⟨n, hn⟩ : ∃ n, path.contextDepth = n + 1 := ⟨path.contextDepth - 1, by omega⟩
  rw [hn, Nat.add_sub_cancel] at hg ⊢
  rw [List.take_add_one, hg, Option.toList_some]

theorem isPrefix_front (contexts : ContextStack) (path : FieldPath) :
    (path.front contexts).entries <+: contexts.entries := by
  rw [front]
  split
  · exact List.take_prefix _ _
  · exact List.prefix_refl _

end FieldPath

/-- What is at the end of a path that starts at a context lies at that context or inside it. -/
theorem FieldPath.Joins.startsWith {path : FieldPath} {c : Context} {d : Destination}
    (h : path.Joins c d) : d.slot.startsWith c.location := by
  by_cases hn : path.segments = []
  · rw [(h.own hn).1]
    exact Location.startsWith_self _
  · exact (Location.isInside_iff_startsWith.mp (h.inside hn)).1

/-- The context that a path starts at is taken away only with its own slot. -/
theorem FieldPath.Joins.takes_iff {path : FieldPath} {c : Context} {d : Destination} {loss : Loss}
    (h : path.Joins c d) :
    loss.takes d.slot c.location = true ↔ path.segments = [] ∧ loss = .whole := by
  by_cases hn : path.segments = []
  · rw [(h.own hn).1, Loss.takes_self]
    exact ⟨fun hw => ⟨hn, hw⟩, And.right⟩
  · rw [Loss.not_takes_of_isInside (h.inside hn)]
    exact ⟨fun hc => by contradiction, fun hc => absurd hc.1 hn⟩

/-- A path that starts at a context leads from the newest of the contexts up to that one. -/
structure FieldPath.Chain (contexts : ContextStack) (path : FieldPath) (d : Destination)
    (lower : List Context) (c : Context) : Prop where
  front : path.front contexts = ⟨lower ++ [c]⟩
  take : contexts.entries.take path.contextDepth = lower ++ [c]
  below : contexts.entries.take (path.contextDepth - 1) = lower
  layered : (⟨lower ++ [c]⟩ : ContextStack).Layered
  joins : path.Joins c d

theorem FieldPath.exists_chain {root : Value RecordType} {contexts : ContextStack}
    {path : FieldPath} {d : Destination} (hl : contexts.Layered) (hu : path.usesContext = true)
    (hd : path.destination root contexts = .ok d) : ∃ lower c, path.Chain contexts d lower c := by
  obtain ⟨c, hc, hj⟩ := joins_of_destination hu hd
  have hq := front_of_context hu hc
  have ht : contexts.entries.take path.contextDepth =
      contexts.entries.take (path.contextDepth - 1) ++ [c] := by
    simpa [front, hu] using hq
  exact ⟨_, c, hq, ht, rfl, hq ▸ hl.of_prefix (isPrefix_front contexts path), hj⟩

/-- If the newest context of a chain is not taken away, none is. -/
theorem FieldPath.Chain.not_takes {contexts : ContextStack} {path : FieldPath} {d : Destination}
    {lower : List Context} {c : Context} {loss : Loss} (h : path.Chain contexts d lower c)
    (hn : loss.takes d.slot c.location = false) :
    ∀ b ∈ contexts.entries.take path.contextDepth, loss.takes d.slot b.location = false := by
  intro b hb
  rw [h.take] at hb
  rcases List.mem_append.mp hb with hb | hb
  · exact h.layered.not_takes h.joins.startsWith b hb
  · rwa [List.mem_singleton.mp hb]

/-- How an edit of a path hands on contexts: the first `n`, moved, and on top of them what it
opened. None of the first ones is at a location that the edit took away. -/
structure HandsOn (path : FieldPath) (d : Destination) (loss : Loss) (move : Location → Location)
    (before : ContextStack) (outcome : Outcome) (done : Editing) (n : Nat)
    (opened : List Context) : Prop where
  entries : done.contexts.entries = (before.entries.take n).map (Context.moved move) ++ opened
  kept : ∀ c ∈ before.entries.take n, loss.takes d.slot c.location = false
  single : opened.length ≤ 1
  closed : done.progress.opens outcome = false → opened = []
  whole : path.usesContext = true → ¬ (path.segments = [] ∧ outcome = .removed) →
    n = path.contextDepth
  dropped : path.usesContext = true → path.segments = [] → outcome = .removed →
    n + 1 = path.contextDepth
  chain : done.progress.opens outcome = true → n = path.contextDepth
  top : done.progress.opens outcome = true → ∃ c, done.contexts.top? = some c ∧
    c.location = done.progress.location ∧ done.progress.targetKind = some c.kind

namespace HandsOn

variable {path : FieldPath} {d : Destination} {loss : Loss} {move : Location → Location}
  {before : ContextStack} {outcome : Outcome} {done : Editing} {n : Nat} {opened : List Context}

theorem of_closed (ho : done.progress.opens outcome = false)
    (he : done.contexts = (⟨before.entries.take n⟩ : ContextStack).relocate move)
    (hk : ∀ c ∈ before.entries.take n, loss.takes d.slot c.location = false)
    (hw : path.usesContext = true → ¬ (path.segments = [] ∧ outcome = .removed) →
      n = path.contextDepth)
    (hd : path.usesContext = true → path.segments = [] → outcome = .removed →
      n + 1 = path.contextDepth) :
    HandsOn path d loss move before outcome done n [] where
  entries := by rw [he, List.append_nil]; rfl
  kept := hk
  single := Nat.zero_le 1
  closed := fun _ => rfl
  whole := hw
  dropped := hd
  chain := fun hc => Bool.noConfusion (ho.symm.trans hc)
  top := fun hc => Bool.noConfusion (ho.symm.trans hc)

/-- An edit that opens its slot removes nothing, so all contexts that it starts behind are left. -/
theorem of_opened (ho : done.progress.opens outcome = true)
    (he : done.contexts.entries =
      (before.entries.take path.contextDepth).map (Context.moved move) ++ opened)
    (hk : ∀ c ∈ before.entries.take path.contextDepth, loss.takes d.slot c.location = false)
    (hs : opened.length ≤ 1)
    (ht : ∃ c, done.contexts.top? = some c ∧ c.location = done.progress.location ∧
      done.progress.targetKind = some c.kind) :
    HandsOn path d loss move before outcome done path.contextDepth opened where
  entries := he
  kept := hk
  single := hs
  closed := fun hc => Bool.noConfusion (ho.symm.trans hc)
  whole := fun _ _ => rfl
  dropped := fun _ _ hr => by
    rw [hr] at ho
    contradiction
  chain := fun _ => rfl
  top := fun _ => ht

end HandsOn

section Chain

variable {op : Operation} {value : String} {path : FieldPath} {d : Destination}
  {root changed : Value RecordType} {contexts : ContextStack} {loss : Loss} {outcome : Outcome}
  {done : Editing} {lower : List Context} {c : Context}

/-- A slot that is opened in a chain comes on top of it, apart from all contexts below, unless it is
there with its kind already. -/
theorem FieldPath.Chain.remember_cases (h : path.Chain contexts d lower c)
    (hg : d.Change op value root loss changed) (hn : loss ≠ .whole) (segment : String) :
    let context : Context := ⟨d.slot, d.place.kind, segment⟩
    let base := (⟨lower ++ [c]⟩ : ContextStack).relocate (d.rebase op value)
    (base.remember true context = base ∧
      ∃ t, base.top? = some t ∧ t.location = d.slot ∧ t.kind = d.place.kind) ∨
    (base.remember true context = base.push context ∧
      ∀ b ∈ base.entries, ¬ b.location.startsWith d.slot) := by
  intro context base
  have ht : base.top? = some (c.moved (d.rebase op value)) := by
    simp [base, ContextStack.top?, ContextStack.relocate]
  rw [ContextStack.remember, if_pos rfl, ht, Option.map_some]
  by_cases hc : d.rebase op value c.location = d.slot
  · refine .inl ⟨if_pos (congrArg some hc), _, rfl, hc, ?_⟩
    rcases hg.still_or_clear hn with still | clear
    · by_cases he : path.segments = []
      · exact (h.joins.own he).2.symm
      · have hi := (Location.isInside_iff_startsWith.mp (h.joins.inside he)).2
        rw [still] at hc
        exact absurd hc.symm hi
    · have hr : (d.rebase op value c.location).startsWith d.slot := by
        rw [hc]
        exact Location.startsWith_self _
      exact absurd hr (clear _)
  · refine .inr ⟨if_neg fun he => hc (Option.some.inj he), fun b hb => ?_⟩
    obtain ⟨b, hm, rfl⟩ := List.mem_map.mp hb
    rcases hg.still_or_clear hn with still | clear
    · intro hr
      have hr : b.location.startsWith d.slot := by simpa [Context.moved, still] using hr
      rcases List.mem_append.mp hm with hm | hm
      · exact h.layered.not_startsWith h.joins.startsWith b hm hr
      · obtain rfl := List.mem_singleton.mp hm
        rw [still] at hc
        exact hc (Location.startsWith_antisymm hr h.joins.startsWith)
    · exact clear _

/-- What an edit at the end of a chain keeps of it: all, unless it removes the slot of the newest
context. -/
theorem FieldPath.Chain.kept (h : path.Chain contexts d lower c) (loss : Loss) :
    (d.site op value contexts path).kept loss =
      (if loss.takes d.slot c.location then ⟨lower⟩ else ⟨lower ++ [c]⟩ : ContextStack).relocate
        (d.rebase op value) := by
  simp only [Site.kept, Destination.site, h.front]
  rw [h.layered.keepUntil_takes h.joins.startsWith]

namespace Site.Account

theorem partial_of_opens {s : Site} (h : s.Account loss outcome done)
    (ho : done.progress.opens outcome = true) : loss ≠ .whole := by
  intro hw
  rw [h.removed.mpr hw] at ho
  contradiction

/-- What an edit leaves that opens its slot at the end of a chain: the whole chain, and the slot. -/
theorem opened_of_chain (h : (d.site op value contexts path).Account loss outcome done)
    (hu : path.usesContext = true) (hc : path.Chain contexts d lower c)
    (ho : done.progress.opens outcome = true) :
    loss.takes d.slot c.location = false ∧ ∃ segment, done.contexts =
      ((⟨lower ++ [c]⟩ : ContextStack).relocate (d.rebase op value)).remember true
        ⟨d.slot, d.place.kind, segment⟩ := by
  obtain ⟨-, -, -, segment, he⟩ := h.opened ho
  have hn : loss.takes d.slot c.location = false := by
    rw [Bool.eq_false_iff]
    exact fun ht => h.partial_of_opens ho (hc.joins.takes_iff.mp ht).2
  have hr : (d.site op value contexts path).chained = true := hu
  rw [hc.kept, hn, if_neg Bool.false_ne_true, hr] at he
  exact ⟨hn, segment, he⟩

/-- What an edit leaves that opens its slot on a path from the root: that slot alone. -/
theorem opened_of_root (h : (d.site op value contexts path).Account loss outcome done)
    (hu : path.usesContext = false) (ho : done.progress.opens outcome = true) :
    ∃ segment, done.contexts = ContextStack.empty.push ⟨d.slot, d.place.kind, segment⟩ := by
  obtain ⟨-, -, -, segment, he⟩ := h.opened ho
  have hr : (d.site op value contexts path).chained = false := hu
  rw [hr] at he
  exact ⟨segment, he⟩

/-- Layered contexts stay layered. -/
theorem layered (h : (d.site op value contexts path).Account loss outcome done)
    (hl : contexts.Layered) (hd : path.destination root contexts = .ok d)
    (hg : d.Change op value root loss changed) : done.contexts.Layered := by
  have hf := hl.of_prefix (FieldPath.isPrefix_front contexts path)
  have hk : ((d.site op value contexts path).kept loss).Layered := hf.keepUntil_relocate hg
  cases ho : done.progress.opens outcome with
  | false =>
    rw [h.closed ho]
    exact hk
  | true =>
    have hs : d.place.kind.isStructural = true := (h.opened ho).1
    have hb : d.slot ≠ [] := Location.child_ne_nil _ _
    cases hu : path.usesContext with
    | false =>
      obtain ⟨segment, he⟩ := h.opened_of_root hu ho
      rw [he]
      exact ContextStack.layered_empty.push hb hs fun b hm => by contradiction
    | true =>
      obtain ⟨lower, c, hc⟩ := FieldPath.exists_chain hl hu hd
      obtain ⟨hn, segment, he⟩ := h.opened_of_chain hu hc ho
      rw [hc.kept, hn, if_neg Bool.false_ne_true] at hk
      rw [he]
      rcases hc.remember_cases hg (h.partial_of_opens ho) segment with ⟨hm, -⟩ | ⟨hm, apart⟩
      · rw [hm]
        exact hk
      · rw [hm]
        exact hk.push hb hs apart

/-- What an edit hands on when its path starts at the root. -/
theorem handsOn_of_root (h : (d.site op value contexts path).Account loss outcome done)
    (hu : path.usesContext = false) :
    ∃ n opened, HandsOn path d loss (d.rebase op value) contexts outcome done n opened := by
  cases ho : done.progress.opens outcome with
  | false =>
    let front := (contexts.keepUntil (loss.takes d.slot)).entries
    have ht : contexts.entries.take front.length = front :=
      (List.prefix_iff_eq_take.mp (ContextStack.isPrefix_keepUntil _ contexts)).symm
    have hf : path.front contexts = contexts := by simp [FieldPath.front, hu]
    refine ⟨front.length, [], .of_closed ho ?_ (fun c hc => ?_)
      (fun hc => Bool.noConfusion (hu.symm.trans hc))
      (fun hc => Bool.noConfusion (hu.symm.trans hc))⟩
    · rw [h.closed ho, ht]
      simp only [Site.kept, Destination.site, hf]
      rfl
    · rw [ht] at hc
      exact (ContextStack.mem_keepUntil hc).2
  | true =>
    obtain ⟨segment, he⟩ := h.opened_of_root hu ho
    obtain ⟨-, hl, hk, -⟩ := h.opened ho
    have hz : path.contextDepth = 0 := by
      by_contra hn
      rw [FieldPath.usesContext_iff.mpr (Nat.pos_of_ne_zero hn)] at hu
      contradiction
    refine ⟨_, [⟨d.slot, d.place.kind, segment⟩], .of_opened ho ?_ (fun c hc => ?_) (Nat.le_refl 1)
      ⟨_, by rw [he, ContextStack.top?_push], hl.symm, hk⟩⟩
    · rw [he, hz]
      rfl
    · simp [hz] at hc

/-- What an edit hands on that opens no slot, when its path starts at a context: all contexts up to
that one, unless it removes the slot of it. -/
theorem handsOn_of_closed (h : (d.site op value contexts path).Account loss outcome done)
    (hu : path.usesContext = true) (hc : path.Chain contexts d lower c)
    (ho : done.progress.opens outcome = false) :
    ∃ n, HandsOn path d loss (d.rebase op value) contexts outcome done n [] := by
  have he := h.closed ho
  rw [hc.kept] at he
  cases hn : loss.takes d.slot c.location with
  | true =>
    obtain ⟨hs, hw⟩ := hc.joins.takes_iff.mp hn
    have hp := FieldPath.usesContext_iff.mp hu
    rw [hn, if_pos rfl, ← hc.below] at he
    refine ⟨path.contextDepth - 1, .of_closed ho he (fun b hb => ?_)
      (fun _ hr => absurd ⟨hs, h.removed.mpr hw⟩ hr) (fun _ _ _ => Nat.sub_add_cancel hp)⟩
    rw [hc.below] at hb
    exact hc.layered.not_takes hc.joins.startsWith b hb
  | false =>
    have hr (hs : path.segments = []) : outcome ≠ .removed := fun hr =>
      Bool.noConfusion (hn.symm.trans (hc.joins.takes_iff.mpr ⟨hs, h.removed.mp hr⟩))
    rw [hn, if_neg Bool.false_ne_true, ← hc.take] at he
    exact ⟨path.contextDepth, .of_closed ho he (hc.not_takes hn) (fun _ _ => rfl)
      (fun _ hs hx => absurd hx (hr hs))⟩

/-- What an edit hands on that opens its slot, when its path starts at a context: all contexts up to
that one, with the slot on top. -/
theorem handsOn_of_opened (h : (d.site op value contexts path).Account loss outcome done)
    (hu : path.usesContext = true) (hc : path.Chain contexts d lower c)
    (hg : d.Change op value root loss changed) (ho : done.progress.opens outcome = true) :
    ∃ opened, HandsOn path d loss (d.rebase op value) contexts outcome done path.contextDepth
      opened := by
  obtain ⟨-, hl, hk, -⟩ := h.opened ho
  obtain ⟨hn, segment, he⟩ := h.opened_of_chain hu hc ho
  rcases hc.remember_cases hg (h.partial_of_opens ho) segment with ⟨hm, t, ht, hs, hd⟩ | ⟨hm, -⟩
  · refine ⟨[], .of_opened ho ?_ (hc.not_takes hn) (Nat.zero_le 1) ⟨t, ?_, hs.trans hl.symm, ?_⟩⟩
    · rw [he, hm, List.append_nil, hc.take]
      rfl
    · rw [he, hm, ht]
    · rw [hd]
      exact hk
  · let context : Context := ⟨d.slot, d.place.kind, segment⟩
    refine ⟨[context], .of_opened ho ?_ (hc.not_takes hn) (Nat.le_refl 1)
      ⟨context, ?_, hl.symm, hk⟩⟩
    · rw [he, hm, hc.take]
      rfl
    · rw [he, hm, ContextStack.top?_push]

theorem handsOn (h : (d.site op value contexts path).Account loss outcome done)
    (hl : contexts.Layered) (hd : path.destination root contexts = .ok d)
    (hg : d.Change op value root loss changed) :
    ∃ n opened, HandsOn path d loss (d.rebase op value) contexts outcome done n opened := by
  cases hu : path.usesContext with
  | false => exact h.handsOn_of_root hu
  | true =>
    obtain ⟨lower, c, hc⟩ := FieldPath.exists_chain hl hu hd
    cases ho : done.progress.opens outcome with
    | false =>
      obtain ⟨n, hn⟩ := h.handsOn_of_closed hu hc ho
      exact ⟨n, [], hn⟩
    | true =>
      obtain ⟨opened, hn⟩ := h.handsOn_of_opened hu hc hg ho
      exact ⟨_, opened, hn⟩

end Site.Account

end Chain

end FieldPatch
