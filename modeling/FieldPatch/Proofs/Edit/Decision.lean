import FieldPatch.Edit.Slot

namespace FieldPatch.SlotEdit

inductive Decision (tags : TagTable) (r : SlotRequest) (kind : Kind RecordType)
    (current : Value RecordType) : Except Fault SlotEdit → Prop
  | null (detail : String) (asked : r.op = .setNull) (reference : kind.isValueKind = false) :
      Decision tags r kind current (.ok (.assign .null false detail))
  | nullRefused (asked : r.op = .setNull) (valued : kind.isValueKind = true) :
      Decision tags r kind current (.error (.nullOnValueKind kind))
  | mark (asked : r.op = .setContext) (structural : kind.isTerminal = false) :
      Decision tags r kind current (.ok .mark)
  | markRefused (asked : r.op = .setContext) (terminal : kind.isTerminal = true) :
      Decision tags r kind current (.error (.contextOnTerminal kind))
  | newSet (detail : String) (asked : r.op = .reset) (sort : kind = .stringSet)
      (held : current = .null) :
      Decision tags r kind current (.ok (.amend (.stringSet .empty) detail))
  | setExists (asked : r.op = .reset) (sort : kind = .stringSet) (held : current ≠ .null) :
      Decision tags r kind current (.error .setExists)
  | keepMember {set : StringSet} (detail : String) (asked : r.op = .insert)
      (sort : kind = .stringSet) (held : current = .stringSet set)
      (present : set.contains r.value = true) :
      Decision tags r kind current (.ok (.keep detail))
  | addMember {set : StringSet} (detail : String) (asked : r.op = .insert)
      (sort : kind = .stringSet) (held : current = .stringSet set)
      (absent : set.contains r.value = false) :
      Decision tags r kind current (.ok (.amend (.stringSet (set.insert r.value)) detail))
  | dropMember {set : StringSet} (detail : String) (asked : r.op = .remove)
      (sort : kind = .stringSet) (held : current = .stringSet set)
      (present : set.contains r.value = true) :
      Decision tags r kind current (.ok (.amend (.stringSet (set.erase r.value)) detail))
  | missMember {set : StringSet} (detail : String) (asked : r.op = .remove)
      (sort : kind = .stringSet) (held : current = .stringSet set)
      (absent : set.contains r.value = false) :
      Decision tags r kind current (.ok (.keep detail))
  | setMissing (asked : r.op = .insert ∨ r.op = .remove) (sort : kind = .stringSet)
      (held : ∀ set, current ≠ .stringSet set) :
      Decision tags r kind current (.error .setMissing)
  | unsupported (asked : r.op = .insert ∨ r.op = .remove ∨ r.op = .overwrite)
      (sort : r.op = .overwrite ↔ kind = .stringSet) :
      Decision tags r kind current (.error (.unsupportedOperation r.op kind))
  | decoded {value : Value RecordType} (detail : String)
      (asked : r.op = .overwrite ∨ r.op = .reset) (terminal : kind.isTerminal = true)
      (made : kind.decode r.op r.value = .ok value) :
      Decision tags r kind current (.ok (.assign value false detail))
  | undecoded {fault : Fault} (asked : r.op = .overwrite ∨ r.op = .reset)
      (terminal : kind.isTerminal = true) (made : kind.decode r.op r.value = .error fault) :
      Decision tags r kind current (.error fault)
  | filled {value : Value RecordType} (detail : String) (asked : r.op = .reset)
      (structural : kind.isTerminal = false)
      (made : kind.defaultInstance tags r.value = .ok value) :
      Decision tags r kind current (.ok (.assign value true detail))
  | unfilled {fault : Fault} (asked : r.op = .reset) (structural : kind.isTerminal = false)
      (made : kind.defaultInstance tags r.value = .error fault) :
      Decision tags r kind current (.error fault)
  | noLiteral (asked : r.op = .overwrite) (structural : kind.isTerminal = false) :
      Decision tags r kind current (.error (.noLiteral kind))

variable (tags : TagTable) (r : SlotRequest) (kind : Kind RecordType) (current : Value RecordType)

theorem ofSet_decision (ho : r.op ≠ .setNull) (hc : r.op ≠ .setContext) :
    Decision tags r .stringSet current (ofSet r current) := by
  unfold ofSet
  dsimp only
  split
  · rename_i hop
    exact .newSet _ hop rfl rfl
  · rename_i hop hn
    exact .setExists hop rfl hn
  · rename_i set hop
    split
    · rename_i hp
      exact .keepMember _ hop rfl rfl hp
    · rename_i hp
      exact .addMember _ hop rfl rfl (by simpa using hp)
  · rename_i set hop
    split
    · rename_i hp
      exact .dropMember _ hop rfl rfl hp
    · rename_i hp
      exact .missMember _ hop rfl rfl (by simpa using hp)
  · rename_i hop hn
    exact .setMissing (.inl hop) rfl hn
  · rename_i hop hn
    exact .setMissing (.inr hop) rfl hn
  · rename_i hr hi hd
    have hop : r.op = .overwrite := by
      cases ho' : r.op <;> simp_all
    exact .unsupported (.inr (.inr hop)) ⟨fun _ => rfl, fun _ => hop⟩

/-- Whatever is asked of a slot, this is what comes of it. -/
theorem decide_decision : Decision tags r kind current (decide tags r kind current) := by
  unfold decide
  split
  · rename_i hop
    split
    · rename_i hk
      exact .nullRefused hop hk
    · rename_i hk
      exact .null _ hop (by simpa using hk)
  · rename_i hop
    split
    · rename_i hk
      exact .markRefused hop hk
    · rename_i hk
      exact .mark hop (by simpa using hk)
  · rename_i hn hc
    exact ofSet_decision tags r current hn hc
  · rename_i hop hk
    exact .unsupported (.inl hop) ⟨fun he => by simp [hop] at he, fun he => absurd he hk⟩
  · rename_i hop hk
    exact .unsupported (.inr (.inl hop)) ⟨fun he => by simp [hop] at he, fun he => absurd he hk⟩
  · rename_i hn hc hk hi hd
    have hop : r.op = .overwrite ∨ r.op = .reset := by
      cases ho : r.op <;> simp_all
    split
    · rename_i ht
      rw [ofTerminal]
      split
      · rename_i he
        exact .undecoded hop ht he
      · rename_i he
        exact .decoded _ hop ht he
    · rename_i ht
      have hs := Bool.eq_false_iff.mpr ht
      rw [ofStructural]
      split
      · rename_i hr
        split
        · rename_i he
          exact .unfilled hr hs he
        · rename_i he
          exact .filled _ hr hs he
      · rename_i hr
        exact .noLiteral (hop.resolve_right hr) hs

end FieldPatch.SlotEdit
