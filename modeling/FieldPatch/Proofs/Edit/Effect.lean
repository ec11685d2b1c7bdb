import FieldPatch.Proofs.Edit.Contents
import FieldPatch.Proofs.Edit.Marked

namespace FieldPatch

theorem StringSet.contains_insert_self (set : StringSet) (member : String) :
    (set.insert member).contains member = true := by
  have hm : member ∈ (set.insert member).members := (mem_insert _ _ _).mpr (.inr rfl)
  simpa [contains] using hm

theorem StringSet.contains_erase_self (set : StringSet) (member : String) :
    (set.erase member).contains member = false := by
  have hm : member ∉ (set.erase member).members := fun hc => ((mem_erase _ _ _).mp hc).1 rfl
  simpa [contains] using hm

theorem Place.outside_of_absent {items : List (Value RecordType)} {index : Option Nat}
    (h : items.length ≤ position items index) : index.filter (· < items.length) = none := by
  cases hf : index.filter (· < items.length) with
  | none => rfl
  | some i =>
    have hi : i < items.length := lt_of_inside hf
    have hp : position items index = i := by rw [position, hf, Option.getD_some]
    omega

/-- An edit in a list or a map that leaves the container itself alone neither adds nor takes away. -/
theorem Place.op_of_own {place : Place} {op : Operation} (h : place.resizes op = false)
    (hp : ∀ name kind, place ≠ .field name kind) : op ≠ .insert ∧ op ≠ .remove := by
  cases place with
  | field name kind => exact absurd rfl (hp name kind)
  | element items index kind => simpa [resizes] using h
  | entry entries key kind => simpa [resizes] using h

namespace SlotEdit

def outcome : SlotEdit → Outcome
  | assign _ _ _ | amend _ _ => .applied
  | keep _ => .noOp
  | mark => .contextSet

/-- The value in the slot after the edit, when `current` was there before. -/
def leaves (current : Value RecordType) : SlotEdit → Value RecordType
  | assign value _ _ | amend value _ => value
  | keep _ | mark => current

end SlotEdit

/-- What comes of a request: the outcome, and the value that is in the slot then. A request that is
refused leaves the value. -/
def SlotRequest.effect (tags : TagTable) (kind : Kind RecordType) (r : SlotRequest)
    (current : Value RecordType) : Outcome × Value RecordType :=
  match SlotEdit.decide tags r kind current with
  | .error fault => (.faulted fault, current)
  | .ok edit => (edit.outcome, edit.leaves current)

namespace SlotEdit

variable {tags : TagTable} {r : SlotRequest} {kind : Kind RecordType} {current : Value RecordType}

theorem decide_of_set (hn : r.op ≠ .setNull) (hc : r.op ≠ .setContext) :
    decide tags r .stringSet current = ofSet r current := by
  unfold decide
  split <;> first | rfl | contradiction

/-- But for the members of a set, what is decided does not depend on the value in the slot. -/
theorem decide_blind (tags : TagTable)
    (h : kind = .stringSet → r.op = .setNull ∨ r.op = .setContext)
    (current other : Value RecordType) :
    decide tags r kind current = decide tags r kind other := by
  unfold decide
  split
  · rfl
  · rfl
  · rename_i hn hc
    exact absurd (h rfl) (not_or.mpr ⟨hn, hc⟩)
  · rfl
  · rfl
  · rfl

end SlotEdit

namespace SlotRequest

variable {tags : TagTable} {r : SlotRequest} {kind : Kind RecordType} {current : Value RecordType}

theorem effect_again_of_blind (h : kind = .stringSet → r.op = .setNull ∨ r.op = .setContext) :
    (r.effect tags kind (r.effect tags kind current).2).2 = (r.effect tags kind current).2 := by
  have hd := SlotEdit.decide_blind tags h (r.effect tags kind current).2 current
  simp only [effect] at hd ⊢
  rw [hd]
  cases SlotEdit.decide tags r kind current with
  | error fault => rfl
  | ok edit => cases edit <;> rfl

/-- A set that has gained a member keeps it, and one that has lost a member does without it. -/
theorem effect_again_of_set (hn : r.op ≠ .setNull) (hc : r.op ≠ .setContext) :
    (r.effect tags .stringSet (r.effect tags .stringSet current).2).2 =
      (r.effect tags .stringSet current).2 := by
  have hd (current : Value RecordType) : SlotEdit.decide tags r .stringSet current = _ :=
    SlotEdit.decide_of_set hn hc
  simp only [effect, hd]
  obtain ⟨op, member, segment⟩ := r
  cases op with
  | setNull => contradiction
  | setContext => contradiction
  | overwrite => rfl
  | reset => cases current <;> rfl
  | insert =>
    cases current with
    | stringSet set =>
      cases hm : set.contains member with
      | true => simp only [SlotEdit.ofSet, hm, if_true, SlotEdit.leaves]
      | false =>
        have hm' := set.contains_insert_self member
        simp [SlotEdit.ofSet, hm, hm', SlotEdit.leaves]
    | _ => rfl
  | remove =>
    cases current with
    | stringSet set =>
      cases hm : set.contains member with
      | true =>
        have hm' := set.contains_erase_self member
        simp [SlotEdit.ofSet, hm, hm', SlotEdit.leaves]
      | false => simp [SlotEdit.ofSet, hm, SlotEdit.leaves]
    | _ => rfl

theorem effect_again (tags : TagTable) (kind : Kind RecordType) (r : SlotRequest)
    (current : Value RecordType) :
    (r.effect tags kind (r.effect tags kind current).2).2 = (r.effect tags kind current).2 := by
  by_cases hn : r.op = .setNull
  · exact effect_again_of_blind fun _ => .inl hn
  · by_cases hc : r.op = .setContext
    · exact effect_again_of_blind fun _ => .inr hc
    · by_cases hk : kind = .stringSet
      · subst hk
        exact effect_again_of_set hn hc
      · exact effect_again_of_blind fun he => absurd he hk

end SlotRequest

namespace Editing

variable {tags : TagTable} {kind : Kind RecordType} {current : Value RecordType} {e : Editing}
  {d : Destination}

/-- What the edit asks of the slot that it has come to. -/
def asks (e : Editing) : SlotRequest := ⟨e.progress.op, e.progress.value, e.progress.segment⟩

/-- An edit ends with an outcome, and with the value in the slot of the config. -/
structure Affects (slot : Location) (effect : Outcome × Value RecordType) (e : Editing)
    (r : Result) : Prop where
  outcome : ending r = effect.1
  written : e.root.replace? slot effect.2 = some r.2.root

variable (tags)

theorem editSlot_affects {slot : Location} (h : e.root.at? slot = some current) :
    Affects slot (e.asks.effect tags kind current) e (editSlot tags slot kind e) := by
  have hw (value : Value RecordType) :
      e.root.replace? slot value = some ((e.aim slot kind).amend slot value).root :=
    root_amend_written (e := e.aim slot kind) h value
  have hk : e.root.replace? slot current = some e.root := Value.replace?_self h
  rw [editSlot_of_held h]
  simp only [SlotRequest.effect, asks]
  generalize SlotEdit.decide tags _ kind current = decision
  cases decision with
  | error fault => exact ⟨rfl, hk⟩
  | ok edit =>
    cases edit with
    | assign value opens detail =>
      refine ⟨rfl, ?_⟩
      cases opens with
      | true => simpa [perform, SlotEdit.leaves] using hw value
      | false => simpa [perform, SlotEdit.leaves] using hw value
    | amend value detail => exact ⟨rfl, hw value⟩
    | keep detail => exact ⟨rfl, hk⟩
    | mark =>
      refine ⟨rfl, ?_⟩
      simpa [perform, SlotEdit.leaves] using hk

/-- An edit of a slot that is there, which adds and takes away nothing else, is a request of it. -/
theorem editDestination_affects (hh : d.Held e.root)
    (own : d.place.resizes e.progress.op = false) (hs : e.root.at? d.slot = some current) :
    Affects d.slot (e.asks.effect tags d.place.kind current) e (editDestination tags d e) := by
  let standing : Editing := { e with progress := { e.progress with atEnd := true } }
  have he : editDestination tags d e = editSlot tags d.slot d.place.kind standing := by
    cases hp : d.place with
    | field name kind =>
      obtain ⟨container, place⟩ := d
      subst hp
      rfl
    | _ =>
      have ho := Place.op_of_own own (by simp [hp])
      rw [← hp]
      exact editDestination_of_present hh (by rw [hs]; rfl) ho.1 ho.2
  have ha : Affects d.slot (standing.asks.effect tags d.place.kind current) standing
      (editSlot tags d.slot d.place.kind standing) := editSlot_affects tags hs
  rw [he]
  exact ⟨ha.outcome, ha.written⟩

/-- Without the slot, such an edit is refused. -/
theorem editDestination_of_absent (hh : d.Held e.root)
    (own : d.place.resizes e.progress.op = false) (hs : e.root.at? d.slot = none) :
    ∃ fault left, editDestination tags d e = (.error fault, left) ∧ left.root = e.root := by
  let standing : Editing := { e with progress := { e.progress with atEnd := true } }
  obtain ⟨container, place⟩ := d
  cases place with
  | field name kind =>
    have hv : (e.root.at? (container.child (.field name))).isSome = true := hh
    have hn : e.root.at? (container.child (.field name)) = none := hs
    rw [hn] at hv
    contradiction
  | element items index kind =>
    have ho : standing.progress.op ≠ .insert := (Place.op_of_own own (by simp)).1
    have hl : standing.root.at? container = some (.list items) := hh
    have hf : index.filter (· < items.length) = none := by
      refine Place.outside_of_absent ?_
      have hn : e.root.at? (container.child (.index (Place.position items index))) = none := hs
      rw [Value.at?_child hl] at hn
      exact List.getElem?_eq_none_iff.mp hn
    have hr : editElement tags container items index kind standing = _ :=
      (editElement_edits hl).outside ho hf
    exact ⟨_, _, hr, rfl⟩
  | entry entries key kind =>
    have ho : standing.progress.op ≠ .insert := (Place.op_of_own own (by simp)).1
    have hm : standing.root.at? container = some (.map entries) := hh
    have hc : Table.contains key entries = false := by
      have hn : e.root.at? (container.child (.key key)) = none := hs
      rw [Value.at?_child hm] at hn
      exact Option.isSome_eq_false_iff.mpr (Option.isNone_iff_eq_none.mpr hn)
    have hr : editEntry tags container entries key kind standing = _ :=
      (editEntry_edits hm).missing ho hc
    exact ⟨_, _, hr, rfl⟩

end Editing

end FieldPatch
