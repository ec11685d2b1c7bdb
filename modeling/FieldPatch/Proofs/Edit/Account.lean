import FieldPatch.Edit.Run
import FieldPatch.Proofs.Context.Layered
import FieldPatch.Proofs.Edit.Decision
import FieldPatch.Proofs.Slot.Lens

namespace FieldPatch

/-- The contexts that an edit of a slot takes away: none, those inside the slot, or those at it
too. -/
inductive Loss where
  | none
  | inside
  | whole

def Loss.takes (slot : Location) : Loss → Location → Bool
  | none, _ => false
  | inside, location => location.isInside slot
  | whole, location => location.startsWith slot

theorem Loss.startsWith_of_takes {loss : Loss} {slot l : Location} (h : loss.takes slot l = true) :
    l.startsWith slot := by
  cases loss with
  | none => contradiction
  | inside => exact (Location.isInside_iff_startsWith.mp h).1
  | whole => exact h

/-- The outcome tells of an edit that was carried out or refused, not of one passed over. -/
def Outcome.isAttempt : Outcome → Bool
  | ignored | skipped => false
  | _ => true

/-- With this outcome the edit has set the slot that it came to as a context. -/
def Progress.opens (p : Progress) : Outcome → Bool
  | .contextSet => true
  | .incomplete => p.targetKind.any Kind.isStructural
  | .applied => p.op = .reset && p.targetKind.any Kind.isStructural
  | _ => false

theorem Progress.isAttempt_of_opens {p : Progress} {outcome : Outcome}
    (h : p.opens outcome = true) : outcome.isAttempt = true := by
  cases outcome with
  | ignored => contradiction
  | skipped => contradiction
  | _ => rfl

/-- What an edit comes to: its slot and the kind of it, where the slots around will be, the
contexts, and whether they are the chain that another one joins. -/
structure Site where
  slot : Location
  kind : Kind RecordType
  move : Location → Location
  contexts : ContextStack
  chained : Bool

namespace Site

def kept (s : Site) (loss : Loss) : ContextStack :=
  (s.contexts.keepUntil (loss.takes s.slot)).relocate s.move

/-- The contexts after an edit are those kept, with the slot on them if the edit opens it. -/
structure Account (s : Site) (loss : Loss) (outcome : Outcome) (done : Editing) : Prop where
  attempt : outcome.isAttempt = true
  removed : outcome = .removed ↔ loss = .whole
  closed : done.progress.opens outcome = false → done.contexts = s.kept loss
  opened : done.progress.opens outcome = true →
    s.kind.isStructural = true ∧ done.progress.location = s.slot ∧
      done.progress.targetKind = some s.kind ∧
      ∃ segment, done.contexts = (s.kept loss).remember s.chained ⟨s.slot, s.kind, segment⟩

/-- An edit that does not open its slot leaves the contexts that it kept. -/
theorem Account.of_closed {s : Site} {loss : Loss} {outcome : Outcome} {done : Editing}
    (ha : outcome.isAttempt = true) (hr : outcome = .removed ↔ loss = .whole)
    (hc : done.contexts = s.kept loss) (ho : done.progress.opens outcome = false) :
    s.Account loss outcome done where
  attempt := ha
  removed := hr
  closed := fun _ => hc
  opened := fun hf => Bool.noConfusion (ho.symm.trans hf)

/-- The account is the same for a site with the same slot that keeps the same contexts. -/
theorem Account.of_kept {s s' : Site} {loss loss' : Loss} {outcome : Outcome} {done : Editing}
    (h : s.Account loss outcome done) (hw : loss' = .whole ↔ loss = .whole)
    (hk : s'.kept loss' = s.kept loss) (hs : s'.slot = s.slot) (hd : s'.kind = s.kind)
    (hc : s'.chained = s.chained) : s'.Account loss' outcome done where
  attempt := h.attempt
  removed := h.removed.trans hw.symm
  closed := fun ho => hk ▸ h.closed ho
  opened := fun ho => by
    rw [hk, hs, hd, hc]
    exact h.opened ho

/-- Reporting a fault leaves the account as it is. -/
theorem Account.refuse {s : Site} {loss : Loss} {fault : Fault} {done : Editing} {text : String}
    (h : s.Account loss (.faulted fault) done) :
    s.Account loss (.faulted fault) (done.refuse text) :=
  .of_closed h.attempt h.removed (h.closed rfl) rfl

theorem kept_none (s : Site) : s.kept .none = s.contexts.relocate s.move := by
  rw [kept, ContextStack.keepUntil_eq_self fun _ _ => rfl]

theorem kept_inside_id (slot : Location) (kind : Kind RecordType) (contexts : ContextStack)
    (chained : Bool) :
    kept ⟨slot, kind, id, contexts, chained⟩ .inside =
      (contexts.discardWithin slot false).2 := by
  rw [ContextStack.discardWithin_snd]
  simp only [kept, ContextStack.relocate_id]
  rfl

end Site

/-- What an edit of a slot makes of the config, with the contexts that it takes away. Only a slot
without slots in it changes in place. -/
inductive Value.SlotChange (root : Value RecordType) (slot : Location) :
    Loss → Value RecordType → Prop
  | idle : SlotChange root slot .none root
  | assign {value changed : Value RecordType} (written : root.replace? slot value = some changed) :
      SlotChange root slot .inside changed
  | amend {old value changed : Value RecordType} (held : root.at? slot = some old)
      (leaf : ∀ step, old.child? step = none)
      (written : root.replace? slot value = some changed) : SlotChange root slot .none changed

theorem Value.SlotChange.partial {root changed : Value RecordType} {slot : Location} {loss : Loss}
    (h : root.SlotChange slot loss changed) : loss ≠ .whole := by
  cases h <;> simp

namespace Editing

variable {tags : TagTable} {e : Editing} {slot : Location} {kind : Kind RecordType}
  {current : Value RecordType}

def ending (r : Result) : Outcome :=
  match r.1 with
  | .ok outcome => outcome
  | .error fault => .faulted fault

theorem root_amend_written (h : e.root.at? slot = some current) (value : Value RecordType) :
    e.root.replace? slot value = some (e.amend slot value).root := by
  have hs := Value.isSome_replace? e.root value slot
  rw [h] at hs
  obtain ⟨changed, hc⟩ := Option.isSome_iff_exists.mp hs
  rw [root_amend e slot value hc, hc]

@[simp] theorem progress_openChain (e : Editing) : e.openChain.progress = e.progress := by
  simp [openChain]

theorem contexts_setContext_eq (e : Editing) (slot : Location) (kind : Kind RecordType) :
    (e.setContext slot kind).contexts =
      e.contexts.remember e.chained ⟨slot, kind, e.progress.segment⟩ := by
  unfold setContext ContextStack.remember
  simp only [← contexts_openChain]
  split
  · rfl
  · simp

@[simp] theorem progress_setContext (e : Editing) (slot : Location) (kind : Kind RecordType) :
    (e.setContext slot kind).progress = e.progress := by
  simp only [setContext]
  split <;> simp

@[simp] theorem progress_assign (e : Editing) (slot : Location) (value : Value RecordType) :
    (e.assign slot value).progress = e.progress := by
  simp only [assign, progress_traceLost]
  rfl

@[simp] theorem chained_traceLost (e : Editing) (lost : Nat) (text : Nat → String) :
    (e.traceLost lost text).chained = e.chained := by
  unfold traceLost
  split
  · rfl
  · rfl

@[simp] theorem chained_assign (e : Editing) (slot : Location) (value : Value RecordType) :
    (e.assign slot value).chained = e.chained := by
  rw [assign, chained_traceLost]
  rfl

/-- The account of an edit of a slot: nothing around it moves. -/
def SlotAccount (slot : Location) (kind : Kind RecordType) (e : Editing) (r : Result) : Prop :=
  ∃ loss, e.root.SlotChange slot loss r.2.root ∧
    Site.Account ⟨slot, kind, id, e.contexts, e.chained⟩ loss (ending r) r.2

theorem setContext_account {loss : Loss} {outcome : Outcome} (opened : Editing)
    (hc : e.root.SlotChange slot loss opened.root)
    (hk : opened.contexts = Site.kept ⟨slot, kind, id, e.contexts, e.chained⟩ loss)
    (hj : opened.chained = e.chained) (hs : kind.isStructural = true)
    (hp : opened.progress.location = slot ∧ opened.progress.targetKind = some kind)
    (ho : opened.progress.opens outcome = true) :
    SlotAccount slot kind e (.ok outcome, opened.setContext slot kind) := by
  have hn : outcome ≠ .removed := by
    rintro rfl
    contradiction
  refine ⟨loss, by simpa using hc, ⟨Progress.isAttempt_of_opens ho, ?_, fun hf => ?_,
    fun _ => ⟨hs, ?_, ?_, opened.progress.segment, ?_⟩⟩⟩
  · exact ⟨fun he => absurd he hn, fun he => absurd he hc.partial⟩
  · simp only [ending, progress_setContext, ho] at hf
    contradiction
  · simpa using hp.1
  · simpa using hp.2
  · rw [contexts_setContext_eq, hk, hj]

theorem closed_account {r : Result} {loss : Loss} (hc : e.root.SlotChange slot loss r.2.root)
    (hk : r.2.contexts = Site.kept ⟨slot, kind, id, e.contexts, e.chained⟩ loss)
    (ha : (ending r).isAttempt = true) (hr : ending r ≠ .removed)
    (ho : r.2.progress.opens (ending r) = false) : SlotAccount slot kind e r := by
  have hw : ending r = .removed ↔ loss = .whole :=
    ⟨fun he => absurd he hr, fun he => absurd he hc.partial⟩
  exact ⟨loss, hc, .of_closed ha hw hk ho⟩

theorem opens_aim_applied (e : Editing) (slot : Location) (kind : Kind RecordType) :
    (e.aim slot kind).progress.opens .applied =
      (decide (e.progress.op = .reset) && kind.isStructural) := rfl

theorem assign_change (h : e.root.at? slot = some current) (kind : Kind RecordType)
    (value : Value RecordType) :
    e.root.SlotChange slot .inside ((e.aim slot kind).assign slot value).root := by
  rw [root_assign]
  exact .assign (root_amend_written (e := e.aim slot kind) h value)

theorem assign_account (h : e.root.at? slot = some current) (value : Value RecordType)
    (detail : String) (ho : e.progress.op ≠ .reset ∨ kind.isStructural = false) :
    SlotAccount slot kind e
      (.ok .applied, ((e.aim slot kind).assign slot value).info detail) := by
  refine closed_account (assign_change h kind value) ?_ rfl (by simp [ending]) ?_
  · simp only [Site.kept_inside_id, contexts_info, contexts_assign, contexts_aim]
  · change ((e.aim slot kind).assign slot value).progress.opens .applied = false
    rw [progress_assign, opens_aim_applied]
    rcases ho with ho | ho <;> simp [ho]

theorem amend_account (h : e.root.at? slot = some current)
    (hl : ∀ step, current.child? step = none) (value : Value RecordType) (detail : String)
    (hk : kind.isStructural = false) :
    SlotAccount slot kind e (.ok .applied, ((e.aim slot kind).amend slot value).info detail) := by
  have hw := root_amend_written (e := e.aim slot kind) h value
  have hc : e.root.SlotChange slot .none ((e.aim slot kind).amend slot value).root :=
    .amend h hl hw
  refine closed_account hc ?_ rfl (by simp [ending]) ?_
  · simp [Site.kept_none]
  · change (e.aim slot kind).progress.opens .applied = false
    simp [opens_aim_applied, hk]

theorem keep_account (detail : String) :
    SlotAccount slot kind e (.ok .noOp, (e.aim slot kind).noEffect detail) :=
  closed_account .idle (by simp [Site.kept_none]) rfl (by simp [ending]) rfl

theorem fault_account {fault : Fault} : SlotAccount slot kind e (.error fault, e.aim slot kind) :=
  closed_account .idle (by simp [Site.kept_none]) rfl (by simp [ending]) rfl

theorem perform_account {edit : SlotEdit} {segment : String} (h : e.root.at? slot = some current)
    (hd : SlotEdit.decide tags ⟨e.progress.op, e.progress.value, segment⟩ kind current = .ok edit) :
    SlotAccount slot kind e (.ok ((e.aim slot kind).perform slot kind edit).1,
      ((e.aim slot kind).perform slot kind edit).2) := by
  have hs := SlotEdit.decide_decision tags ⟨e.progress.op, e.progress.value, segment⟩ kind current
  rw [hd] at hs
  cases hs with
  | null detail asked reference =>
    have ho : e.progress.op ≠ .reset := fun hc => absurd (asked.symm.trans hc) (by decide)
    exact assign_account h _ detail (.inl ho)
  | mark asked structural =>
    have hk : kind.isStructural = true := by simpa [Kind.isTerminal] using structural
    have hc : (e.aim slot kind).contexts =
        Site.kept ⟨slot, kind, id, e.contexts, e.chained⟩ .none := by simp [Site.kept_none]
    exact setContext_account (e.aim slot kind) .idle hc rfl hk ⟨rfl, rfl⟩ rfl
  | newSet detail asked sort held =>
    subst sort held
    exact amend_account h (fun step => by cases step <;> rfl) _ detail rfl
  | keepMember detail asked sort held present => exact keep_account detail
  | addMember detail asked sort held absent =>
    subst sort held
    exact amend_account h (fun step => by cases step <;> rfl) _ detail rfl
  | dropMember detail asked sort held present =>
    subst sort held
    exact amend_account h (fun step => by cases step <;> rfl) _ detail rfl
  | missMember detail asked sort held absent => exact keep_account detail
  | decoded detail asked terminal made =>
    exact assign_account h _ detail (.inr (by simpa [Kind.isTerminal] using terminal))
  | @filled value detail asked structural made =>
    have hk : kind.isStructural = true := by simpa [Kind.isTerminal] using structural
    refine setContext_account (((e.aim slot kind).assign slot value).info detail)
      (assign_change h kind value) ?_ ?_ hk ?_ ?_
    · simp only [Site.kept_inside_id, contexts_info, contexts_assign, contexts_aim]
    · exact chained_assign _ _ _
    · change ((e.aim slot kind).assign slot value).progress.location = slot ∧
        ((e.aim slot kind).assign slot value).progress.targetKind = some kind
      rw [progress_assign]
      exact ⟨rfl, rfl⟩
    · change ((e.aim slot kind).assign slot value).progress.opens .applied = true
      rw [progress_assign, opens_aim_applied]
      simpa [hk] using asked

/-- At a slot that is there, an edit does what is decided about it. -/
theorem editSlot_of_held (h : e.root.at? slot = some current) :
    editSlot tags slot kind e =
      match SlotEdit.decide tags ⟨e.progress.op, e.progress.value, e.progress.segment⟩ kind
        current with
      | .error fault => (.error fault, e.aim slot kind)
      | .ok edit =>
        (.ok ((e.aim slot kind).perform slot kind edit).1,
          ((e.aim slot kind).perform slot kind edit).2) := by
  simp only [editSlot, root_aim, h]
  rfl

theorem editSlot_account (h : e.root.at? slot = some current) :
    SlotAccount slot kind e (editSlot tags slot kind e) := by
  rw [editSlot_of_held h]
  split
  · exact fault_account
  · rename_i hd
    exact perform_account h hd

theorem fill_account (h : e.root.at? slot = some current) :
    SlotAccount slot kind e (fill tags slot kind e) := by
  rw [fill]
  dsimp only
  split
  · cases hk : kind.isStructural with
    | true =>
      exact setContext_account (e.aim slot kind) .idle (by simp [Site.kept_none]) rfl hk ⟨rfl, rfl⟩
        hk
    | false =>
      exact closed_account .idle (by simp [Site.kept_none]) rfl (by simp [ending]) hk
  · exact editSlot_account (e := { e with progress := { e.progress with
      op := fillOperation kind e.progress.value } }) h

end Editing

end FieldPatch
