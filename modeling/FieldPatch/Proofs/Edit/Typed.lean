import FieldPatch.Proofs.Edit.Move
import FieldPatch.Proofs.Schema.Fits

namespace FieldPatch

def Schema.Registers (S : Schema) (tags : TagTable) : Prop :=
  ∀ tag type, tags.lookup? tag = some type → S.types type

variable {S : Schema} {tags : TagTable} {kind : Kind RecordType}

theorem Kind.zero_fits (types : RecordType → Prop) (kind : Kind RecordType) :
    Fits types kind.zero kind := by
  cases kind with
  | bool => exact .bool
  | int => exact .int
  | float => exact .float
  | vector dim => exact .vector
  | color => exact .color
  | enum type =>
    simp only [zero, EnumType.default?]
    cases hm : type.members with
    | nil => exact .noMember hm
    | cons first rest => exact .enum (by simp [hm])
  | _ => exact .null rfl

/-- A new record fits every kind that accepts its type. -/
theorem RecordType.fresh_fits {type : RecordType} (h : S.types type)
    (ha : kind.accepts type = true) : Fits S.types type.fresh kind := by
  refine .record h ha ?_ ?_
  · simp [Table.keys, Function.comp_def]
  · intro name declared value hk hg
    cases (get?_fresh hk).symm.trans hg
    cases hi : declared.initial with
    | none => exact Kind.zero_fits S.types declared.kind
    | some initial => exact S.initial_fits type h name declared initial hk hi

theorem Kind.fresh?_fits {value : Value RecordType} (ho : kind.Over S.types)
    (h : kind.fresh? = some value) : Fits S.types value kind := by
  cases kind with
  | string => cases h; exact .string
  | enum type =>
    simp only [fresh?, EnumType.default?, Option.map_eq_some_iff] at h
    obtain ⟨member, hm, rfl⟩ := h
    exact .enum (List.mem_of_head? hm)
  | stringSet => cases h; exact .stringSet
  | list element => cases h; exact .list (by simp)
  | map key value => cases h; exact .map (by simp) (by simp)
  | record type =>
    cases h
    exact RecordType.fresh_fits ho (by simp [accepts, RecordType.isA])
  | interface name => cases h
  | _ => cases h; exact zero_fits _ _

theorem Kind.defaultInstance_fits {raw : String} {value : Value RecordType}
    (ht : S.Registers tags) (ho : kind.Over S.types)
    (h : kind.defaultInstance tags raw = .ok value) : Fits S.types value kind := by
  rw [defaultInstance] at h
  split at h
  · split at h
    · cases h
    · rename_i type hl
      split at h
      · rename_i ha
        cases h
        exact RecordType.fresh_fits (ht _ _ hl) ha
      · cases h
  · split at h
    · rename_i hf
      cases h
      exact fresh?_fits ho hf
    · cases h

theorem Kind.resetValue_fits {value : Value RecordType} (h : kind.resetValue = .ok value) :
    Fits S.types value kind := by
  simp only [resetValue] at h
  split at h
  · cases h; exact .null rfl
  · cases h; exact .color
  · split at h
    · rename_i hd
      cases h
      exact .enum (List.mem_of_head? hd)
    · cases h
  all_goals
    cases h
    try exact zero_fits _ _

theorem Kind.checked_fits {α : Type} {raw : String} {make : α → Value RecordType}
    {read : Except Misread α} {value : Value RecordType} {types : RecordType → Prop}
    (hm : ∀ a, Fits types (make a) kind) (h : kind.checked raw make read = .ok value) :
    Fits types value kind := by
  cases read with
  | error reason => cases h
  | ok a => cases h; exact hm a

theorem Kind.read_fits {raw : String} {value : Value RecordType} (h : kind.read raw = .ok value) :
    Fits S.types value kind := by
  cases kind with
  | string => cases h; exact .string
  | bool => cases h; exact .bool
  | int => exact checked_fits (fun _ => .int) h
  | float => exact checked_fits (fun _ => .float) h
  | vector dim => exact checked_fits (fun _ => .vector) h
  | color => exact checked_fits (fun _ => .color) h
  | enum type =>
    unfold read at h
    dsimp only at h
    split at h
    · rename_i hm
      cases h
      exact .enum (List.mem_of_find?_eq_some hm)
    · cases h
  | _ => cases h

theorem Kind.decode_fits {op : Operation} {raw : String} {value : Value RecordType}
    (h : kind.decode op raw = .ok value) : Fits S.types value kind := by
  rw [decode] at h
  split at h
  · exact resetValue_fits h
  · exact read_fits h

theorem SlotEdit.assign_fits {r : SlotRequest} {current value : Value RecordType} {opens : Bool}
    {detail : String} (ht : S.Registers tags) (ho : kind.Over S.types)
    (h : decide tags r kind current = .ok (.assign value opens detail)) :
    Fits S.types value kind := by
  have hd := decide_decision tags r kind current
  rw [h] at hd
  cases hd with
  | null detail asked reference => exact .null reference
  | decoded detail asked terminal made => exact Kind.decode_fits made
  | filled detail asked structural made => exact Kind.defaultInstance_fits ht ho made

theorem Editing.newEntry_fits {raw : String} {entry : Value RecordType} (ho : kind.Over S.types)
    (h : newEntry kind raw = .ok entry) : Fits S.types entry kind := by
  rw [newEntry] at h
  split at h
  · rename_i hf
    cases h
    exact Kind.fresh?_fits ho hf
  · rename_i hn
    split at h
    · cases h
    · cases h
      cases kind with
      | enum type =>
        simp only [Kind.fresh?, EnumType.default?, Option.map_eq_none_iff,
          List.head?_eq_none_iff] at hn
        exact .noMember hn
      | interface name => exact .null rfl
      | _ => cases hn

namespace Scene

theorem Move.holds {type : RecordType} {s t : Scene} (h : Move tags s t) (ht : S.Registers tags)
    (hs : S.Holds type s.root) : S.Holds type t.root := by
  cases h with
  | drop cut => exact hs
  | remember segment named => exact hs
  | assign named decided written =>
    have ho := (hs.slot_fits named.reaches).covered
    exact hs.replace named.reaches named.below (SlotEdit.assign_fits ht ho decided) written
  | amend named decided written =>
    obtain ⟨rfl, -, set, rfl⟩ := SlotEdit.of_amend decided
    exact hs.replace named.reaches named.below .stringSet written
  | makeElement held inside made written =>
    obtain ⟨hv, ho⟩ := hs.slot_fits held
    cases hv with
    | list items_fit =>
      refine hs.replace held (held.ne_nil (by simp)) (.list fun item hm => ?_) written
      rcases (List.mem_insertIdx inside).mp hm with rfl | hm
      · exact Editing.newEntry_fits ho made
      · exact items_fit item hm
  | dropElement held written =>
    obtain ⟨hv, ho⟩ := hs.slot_fits held
    cases hv with
    | list items_fit =>
      exact hs.replace held (held.ne_nil (by simp))
        (.list fun item hm => items_fit item (List.mem_of_mem_eraseIdx hm)) written
  | makeEntry held sort made written =>
    obtain ⟨hv, ho⟩ := hs.slot_fits held
    cases hv with
    | map keys_suit entries_fit =>
      refine hs.replace held (held.ne_nil (by simp)) (.map (fun e hm => ?_) fun e hm => ?_) written
      · rcases List.mem_append.mp hm with hm | hm
        · exact keys_suit e hm
        · cases List.mem_singleton.mp hm
          exact Key.suits_of_isOf sort
      · rcases List.mem_append.mp hm with hm | hm
        · exact entries_fit e hm
        · cases List.mem_singleton.mp hm
          exact Editing.newEntry_fits ho made
  | dropEntry held written =>
    obtain ⟨hv, ho⟩ := hs.slot_fits held
    cases hv with
    | map keys_suit entries_fit =>
      exact hs.replace held (held.ne_nil (by simp))
        (.map (fun e hm => keys_suit e (Table.mem_of_mem_erase hm))
          fun e hm => entries_fit e (Table.mem_of_mem_erase hm)) written

end Scene

end FieldPatch
