import FieldPatch.Proofs.Edit.Origin

namespace FieldPatch

/-- What a value makes of a new entry of the kind: the default instance for a blank one, the value
read for a terminal kind, its reset value if a tag is given, and an instance of the tagged type for
a structural kind. -/
inductive Kind.Entry (tags : TagTable) (value : String) (kind : Kind RecordType) :
    Value RecordType → Prop
  | fresh {entry : Value RecordType} (blank : Text.allBlank value = true)
      (made : kind.fresh? = some entry) : Entry tags value kind entry
  | read {entry : Value RecordType} (given : Text.allBlank value = false)
      (terminal : kind.isTerminal = true) (plain : kind = .string ∨ Tag.isTag value = false)
      (made : kind.read value = .ok entry) : Entry tags value kind entry
  | reset {entry : Value RecordType} (given : Text.allBlank value = false)
      (terminal : kind.isTerminal = true) (other : kind ≠ .string)
      (tag : Tag.isTag value = true) (made : kind.resetValue = .ok entry) :
      Entry tags value kind entry
  | tagged {type : RecordType} (given : Text.allBlank value = false)
      (structural : kind.isStructural = true) (tag : Tag.isTag value = true)
      (known : tags.lookup? value = some type) (fits : kind.accepts type = true) :
      Entry tags value kind type.fresh

/-- What makes room for an entry: the default instance of the kind, or null. -/
def Kind.placeholder (kind : Kind RecordType) : Value RecordType := kind.fresh?.getD .null

namespace Editing

theorem fillOperation_string (value : String) : fillOperation .string value = .overwrite := rfl

theorem fillOperation_other {kind : Kind RecordType} (hk : kind ≠ .string) (value : String) :
    fillOperation kind value = if Tag.isTag value then .reset else .overwrite := by
  cases kind <;> first | rfl | contradiction

end Editing

namespace Kind

open Editing (fillOperation fillOperation_string fillOperation_other)

variable {tags : TagTable} {value : String} {kind : Kind RecordType} {entry : Value RecordType}

theorem entry_of_blank (hb : Text.allBlank value = true) :
    kind.Entry tags value entry ↔ kind.fresh? = some entry := by
  constructor
  · intro h
    cases h with
    | fresh blank made => exact made
    | read given => simp [hb] at given
    | reset given => simp [hb] at given
    | tagged given => simp [hb] at given
  · exact .fresh hb

/-- A value that is given is decoded for a terminal kind. -/
theorem entry_of_terminal (hb : Text.allBlank value = false) (ht : kind.isTerminal = true) :
    kind.Entry tags value entry ↔
      kind.decode (fillOperation kind value) value = .ok entry := by
  have hn : kind.isStructural = false := by simpa [isTerminal] using ht
  by_cases hk : kind = .string
  · subst hk
    rw [fillOperation_string, decode, if_neg (by simp)]
    constructor
    · intro h
      cases h with
      | fresh blank => simp [hb] at blank
      | read given terminal plain made => exact made
      | reset given terminal other => contradiction
      | tagged given structural => contradiction
    · exact .read hb ht (.inl rfl)
  · rw [fillOperation_other hk, decode]
    constructor
    · intro h
      cases h with
      | fresh blank => simp [hb] at blank
      | read given terminal plain made => rwa [plain.resolve_left hk]
      | reset given terminal other tag made => rwa [tag]
      | tagged given structural => simp [hn] at structural
    · intro h
      cases hg : Tag.isTag value with
      | true =>
        rw [hg] at h
        exact .reset hb ht hk hg h
      | false =>
        rw [hg] at h
        exact .read hb ht (.inr hg) h

/-- A value that is given has to be a tag for a structural kind. -/
theorem entry_of_structural (hb : Text.allBlank value = false) (hs : kind.isStructural = true) :
    kind.Entry tags value entry ↔
      fillOperation kind value = .reset ∧ kind.defaultInstance tags value = .ok entry := by
  have hk : kind ≠ .string := by
    rintro rfl
    contradiction
  rw [fillOperation_other hk]
  constructor
  · intro h
    cases h with
    | fresh blank => simp [hb] at blank
    | read given terminal => simp [isTerminal, hs] at terminal
    | reset given terminal => simp [isTerminal, hs] at terminal
    | tagged given structural tag known fits => simp [defaultInstance, tag, known, fits]
  · rintro ⟨ho, hd⟩
    have hg : Tag.isTag value = true := by simpa using ho
    rw [defaultInstance, if_pos hg] at hd
    split at hd
    · contradiction
    · rename_i type hl
      split at hd
      · rename_i ha
        cases hd
        exact .tagged hb hs hg hl ha
      · contradiction

/-- No fault of reading a value or making an instance blames the path. -/
theorem faultClass_of_decode {op : Operation} {fault : Fault}
    (h : kind.decode op value = .error fault) : fault.faultClass ≠ .structural := by
  have hc {α : Type} (k : Kind RecordType) (make : α → Value RecordType) (r : Except Misread α)
      (h : k.checked value make r = .error fault) : fault.faultClass ≠ .structural := by
    cases r with
    | ok a => contradiction
    | error reason =>
      cases h
      simp [Fault.faultClass]
  rw [decode] at h
  split at h
  · unfold resetValue at h
    split at h <;> try contradiction
    · split at h
      · contradiction
      · cases h
        simp [Fault.faultClass]
    all_goals
      cases h
      simp [Fault.faultClass]
  · unfold read at h
    split at h <;> try contradiction
    all_goals first | exact hc _ _ _ h | skip
    · split at h
      · contradiction
      · cases h
        simp [Fault.faultClass]
    all_goals
      cases h
      simp [Fault.faultClass]

theorem faultClass_of_defaultInstance {fault : Fault}
    (h : kind.defaultInstance tags value = .error fault) : fault.faultClass ≠ .structural := by
  unfold defaultInstance at h
  split at h <;> split at h
  · cases h
    simp [Fault.faultClass]
  · split at h
    · contradiction
    · cases h
      simp [Fault.faultClass]
  · contradiction
  · cases h
    simp [Fault.faultClass]

end Kind

namespace SlotEdit

open Editing (fillOperation)

variable {tags : TagTable} {kind : Kind RecordType} {first : Value RecordType}

/-- What is decided about filling a new entry with a value that is given. -/
inductive Fills (tags : TagTable) (value : String) (kind : Kind RecordType) :
    Except Fault SlotEdit → Prop
  | assign {entry : Value RecordType} {opens : Bool} {detail : String}
      (made : kind.Entry tags value entry) :
      Fills tags value kind (.ok (.assign entry opens detail))
  | refuse {fault : Fault} (sort : fault.faultClass ≠ .structural)
      (unmade : ∀ entry, ¬ kind.Entry tags value entry) : Fills tags value kind (.error fault)

theorem decide_fills {value : String} (segment : String) (hb : Text.allBlank value = false)
    (hn : Editing.newEntry kind value = .ok first) :
    Fills tags value kind
      (decide tags ⟨fillOperation kind value, value, segment⟩ kind first) := by
  have only {op : Operation} (asked : fillOperation kind value = op) :
      op = .overwrite ∨ op = .reset := asked ▸ Editing.fillOperation_eq kind value
  have hs := decide_decision tags ⟨fillOperation kind value, value, segment⟩ kind first
  -- Sets are never filled: the one that made room is there, and no text is read as one.
  have hset (hk : kind = .stringSet) (entry : Value RecordType) :
      ¬ kind.Entry tags value entry := by
    subst hk
    rw [Kind.entry_of_terminal hb rfl, Kind.decode]
    split <;> exact fun h => by contradiction
  generalize decide tags ⟨fillOperation kind value, value, segment⟩ kind first = edit at hs
  cases hs with
  | null detail asked => exact absurd (only asked) (by decide)
  | nullRefused asked => exact absurd (only asked) (by decide)
  | mark asked => exact absurd (only asked) (by decide)
  | markRefused asked => exact absurd (only asked) (by decide)
  | newSet detail asked sort held =>
    subst sort held
    simp [Editing.newEntry, Kind.fresh?] at hn
  | setExists asked sort held => exact .refuse (by simp [Fault.faultClass]) (hset sort)
  | keepMember detail asked => exact absurd (only asked) (by decide)
  | addMember detail asked => exact absurd (only asked) (by decide)
  | dropMember detail asked => exact absurd (only asked) (by decide)
  | missMember detail asked => exact absurd (only asked) (by decide)
  | setMissing asked =>
    rcases asked with asked | asked
    · exact absurd (only asked) (by decide)
    · exact absurd (only asked) (by decide)
  | unsupported asked sort =>
    have hk : kind = .stringSet := by
      rcases asked with asked | asked | asked
      · exact absurd (only asked) (by decide)
      · exact absurd (only asked) (by decide)
      · exact sort.mp asked
    exact .refuse (by simp [Fault.faultClass]) (hset hk)
  | decoded detail asked terminal made =>
    exact .assign ((Kind.entry_of_terminal hb terminal).mpr made)
  | undecoded asked terminal made =>
    refine .refuse (Kind.faultClass_of_decode made) fun entry h => ?_
    cases made.symm.trans ((Kind.entry_of_terminal hb terminal).mp h)
  | filled detail asked structural made =>
    have hk : kind.isStructural = true := by simpa [Kind.isTerminal] using structural
    exact .assign ((Kind.entry_of_structural hb hk).mpr ⟨asked, made⟩)
  | unfilled asked structural made =>
    have hk : kind.isStructural = true := by simpa [Kind.isTerminal] using structural
    refine .refuse (Kind.faultClass_of_defaultInstance made) fun entry h => ?_
    cases made.symm.trans ((Kind.entry_of_structural hb hk).mp h).2
  | noLiteral asked structural =>
    have hk : kind.isStructural = true := by simpa [Kind.isTerminal] using structural
    refine .refuse (by simp [Fault.faultClass]) fun entry h => ?_
    cases asked.symm.trans ((Kind.entry_of_structural hb hk).mp h).1

end SlotEdit

namespace Editing

variable {tags : TagTable} {kind : Kind RecordType} {e : Editing}

/-- How an insertion ends. `grown` is the container with an entry added to it, and `moved` are the
contexts once there is room for the entry. -/
inductive Inserts (tags : TagTable) (container : Location) (kind : Kind RecordType)
    (grown : Value RecordType → Value RecordType) (moved : ContextStack) (e : Editing) :
    Result → Prop
  | made {entry : Value RecordType} {outcome : Outcome} {done : Editing}
      (filled : kind.Entry tags e.progress.value entry) (told : outcome.mutated = true)
      (written : e.root.replace? container (grown entry) = some done.root) :
      Inserts tags container kind grown moved e (.ok outcome, done)
  | refused {fault : Fault} {done : Editing} (blank : Text.allBlank e.progress.value = true)
      (sort : fault.faultClass ≠ .structural)
      (unmade : ∀ entry, ¬ kind.Entry tags e.progress.value entry)
      (root : done.root = e.root) (contexts : done.contexts = e.contexts) :
      Inserts tags container kind grown moved e (.error fault, done)
  | left {fault : Fault} {done : Editing} (given : Text.allBlank e.progress.value = false)
      (sort : fault.faultClass ≠ .structural)
      (unmade : ∀ entry, ¬ kind.Entry tags e.progress.value entry)
      (written : e.root.replace? container (grown kind.placeholder) = some done.root)
      (contexts : done.contexts = moved) :
      Inserts tags container kind grown moved e (.error fault, done)

section

variable {container : Location} {grown : Value RecordType → Value RecordType}
  {moved : ContextStack} {r : Result}

/-- An insertion goes through exactly if there is an entry for its value. -/
theorem Inserts.isFault_iff (h : Inserts tags container kind grown moved e r) :
    (ending r).isFault = false ↔ ∃ entry, kind.Entry tags e.progress.value entry := by
  cases h with
  | @made entry outcome done filled told written =>
    have ho : outcome.isFault = false := by cases outcome <;> first | rfl | contradiction
    exact ⟨fun _ => ⟨entry, filled⟩, fun _ => ho⟩
  | refused blank sort unmade =>
    refine ⟨fun h => Bool.noConfusion h, ?_⟩
    rintro ⟨entry, filled⟩
    exact absurd filled (unmade entry)
  | left given sort unmade =>
    refine ⟨fun h => Bool.noConfusion h, ?_⟩
    rintro ⟨entry, filled⟩
    exact absurd filled (unmade entry)

theorem Inserts.written (h : Inserts tags container kind grown moved e r)
    (hf : (ending r).isFault = false) :
    ∃ entry, kind.Entry tags e.progress.value entry ∧
      e.root.replace? container (grown entry) = some r.2.root := by
  cases h with
  | made filled told written => exact ⟨_, filled, written⟩
  | refused => contradiction
  | left => contradiction

end

theorem newEntry_ok {value : String} {first : Value RecordType}
    (h : newEntry kind value = .ok first) :
    first = kind.placeholder ∧ (Text.allBlank value = true → kind.fresh? = some first) := by
  rw [newEntry] at h
  split at h
  · rename_i fresh hf
    cases h
    exact ⟨by rw [Kind.placeholder, hf, Option.getD_some], fun _ => hf⟩
  · rename_i hf
    split at h
    · contradiction
    · rename_i hb
      cases h
      exact ⟨by rw [Kind.placeholder, hf, Option.getD_none], fun hc => absurd hc hb⟩

theorem newEntry_error {value : String} {fault : Fault} (h : newEntry kind value = .error fault) :
    fault = .noInstance kind ∧ Text.allBlank value = true ∧ kind.fresh? = none := by
  rw [newEntry] at h
  split at h
  · contradiction
  · rename_i hf
    split at h
    · rename_i hb
      cases h
      exact ⟨rfl, hb, hf⟩
    · contradiction

/-- Without anything to make room with, a blank insertion is refused. -/
theorem inserts_of_error {container : Location} {grown : Value RecordType → Value RecordType}
    {moved : ContextStack} {fault : Fault} (h : newEntry kind e.progress.value = .error fault) :
    Inserts tags container kind grown moved e (.error fault, e) := by
  obtain ⟨rfl, hb, hf⟩ := newEntry_error h
  refine .refused hb (by simp [Fault.faultClass]) (fun entry he => ?_) rfl rfl
  rw [Kind.entry_of_blank hb, hf] at he
  contradiction

/-- Once there is room for it, the entry is filled in its place, or stays what made room. -/
theorem inserts_of_made {container : Location} {grown : Value RecordType → Value RecordType}
    {step : Step} {base first : Value RecordType} (room : Editing)
    (hn : newEntry kind e.progress.value = .ok first) (hc : e.root.at? container = some base)
    (hs : (grown first).child? step = some first)
    (hg : ∀ entry, (grown first).setChild step entry = grown entry)
    (hr : room.root = (e.amend container (grown first)).root) (hp : room.progress = e.progress) :
    Inserts tags container kind grown room.contexts e
      (fill tags (container.child step) kind room) := by
  obtain ⟨hf, hd⟩ := newEntry_ok hn
  have hw : e.root.replace? container (grown first) = some room.root :=
    hr ▸ root_amend_written hc (grown first)
  have hat : room.root.at? (container.child step) = some first := by
    refine (Value.at?_replace?_append hw [step]).trans ?_
    simp [Value.at?, hs]
  -- Filling the slot of the entry is the same as having added the filled entry at once.
  have hfill {entry changed : Value RecordType}
      (h : room.root.replace? (container.child step) entry = some changed) :
      e.root.replace? container (grown entry) = some changed := by
    have hset := Value.replace?_setChild hw h
    rwa [hg] at hset
  have hv : room.progress.value = e.progress.value := by rw [hp]
  rw [← hv] at hn hd
  rw [fill]
  dsimp only
  split
  · rename_i hb
    have hm : Outcome.incomplete.mutated = true := rfl
    refine .made (.fresh (hv ▸ hb) (hd hb)) hm ?_
    rw [hw]
    split
    · rw [root_setContext, root_aim]
    · rfl
  · rename_i hb
    have hb : Text.allBlank room.progress.value = false := Bool.eq_false_iff.mpr hb
    let asked : Editing := { room with
      progress := { room.progress with op := fillOperation kind room.progress.value } }
    have hs : editSlot tags (container.child step) kind asked = _ := editSlot_of_held hat
    have hdec : SlotEdit.Fills tags room.progress.value kind (SlotEdit.decide tags
        ⟨asked.progress.op, asked.progress.value, asked.progress.segment⟩ kind first) :=
      SlotEdit.decide_fills asked.progress.segment hb hn
    rw [hs]
    generalize SlotEdit.decide tags _ kind first = edit at hdec
    cases hdec with
    | @assign entry opens detail made =>
      have hw : room.root.replace? (container.child step) entry =
          some ((asked.aim (container.child step) kind).amend (container.child step) entry).root :=
        root_amend_written (e := asked.aim (container.child step) kind) hat entry
      have hm : Outcome.applied.mutated = true := rfl
      refine .made (hv ▸ made) hm (hfill ?_)
      dsimp only [perform]
      split
      · rw [root_setContext, root_info, root_assign, hw]
      · rw [root_info, root_assign, hw]
    | refuse sort unmade => exact .left (hv ▸ hb) sort (hv ▸ unmade) (hf ▸ hw) rfl

theorem insertElement_inserts {list : Location} {items : List (Value RecordType)} {index : Nat}
    (hl : e.root.at? list = some (.list items)) (hi : index ≤ items.length) :
    Inserts tags list kind (fun entry => .list (items.insertIdx index entry))
      (e.contexts.afterInsert list index) e (insertElement tags list items index kind e) := by
  rw [insertElement]
  split
  · rename_i hn
    exact inserts_of_error hn
  · rename_i first hn
    refine inserts_of_made (e.makeElement list items index kind first) hn hl ?_ ?_ rfl rfl
    · simp [Value.child?, List.getElem?_insertIdx, hi]
    · intro entry
      rw [Value.setChild, set_insertIdx_self]

theorem insertEntry_inserts {map : Location} {entries : List (Key × Value RecordType)} {key : Key}
    (hm : e.root.at? map = some (.map entries)) (ha : Table.get? key entries = none) :
    Inserts tags map kind (fun entry => .map (entries ++ [(key, entry)])) e.contexts e
      (insertEntry tags map entries key kind e) := by
  rw [insertEntry]
  split
  · rename_i hn
    exact inserts_of_error hn
  · rename_i first hn
    refine inserts_of_made (e.makeEntry map entries key first) hn hm ?_ ?_ rfl rfl
    · rw [Value.child?, Table.get?_append_self ha]
    · intro entry
      rw [Value.setChild, Table.set_append_self ha]

end Editing

end FieldPatch
