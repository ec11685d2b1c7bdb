import FieldPatch.Path.Operation
import FieldPatch.Proofs.Text.Spaces

namespace FieldPatch.Operation

/-- The text ends with the token of no operation. -/
def Unmarked (raw : String) : Prop :=
  ∀ (op : Operation) (token front : String), op.token? = some token → raw ≠ front ++ token

/-- A raw text as an operation and a value, told from the text alone. -/
inductive Division (raw : String) : Operation × String → Prop
  | marked {op : Operation} {token value : String} (spaces : Nat) (asks : op.token? = some token)
      (bare : value.toList.getLast? ≠ some ' ')
      (text : raw = value ++ Text.spaces spaces ++ token) : Division raw (op, value)
  | unmarked (plain : Unmarked raw) : Division raw (.overwrite, raw)

variable {op op' : Operation} {raw token token' front front' value : String}

theorem mem_marked_iff : op ∈ marked ↔ op ≠ .overwrite := by
  cases op <;> simp [marked]

theorem exists_token_iff : (∃ token, op.token? = some token) ↔ op ≠ .overwrite := by
  cases op <;> simp [token?]

theorem length_token (h : op.token? = some token) : token.toList.length = 2 := by
  cases op <;> cases h <;> rfl

theorem token_injective (h : op.token? = some token) (h' : op'.token? = some token) : op = op' := by
  cases op <;> cases h <;> cases op' <;> simp [token?] at h' ⊢

/-- A text ends with one token at most, since all of them are of one length. -/
theorem append_token_inj (h : op.token? = some token) (h' : op'.token? = some token')
    (ht : front ++ token = front' ++ token') : front = front' ∧ op = op' := by
  have hl : token.toList.length = token'.toList.length := by rw [length_token h, length_token h']
  have hc : front.toList ++ token.toList = front'.toList ++ token'.toList := by
    rw [← String.toList_append, ht, String.toList_append]
  obtain ⟨hf, hk⟩ := List.append_inj' hc hl
  obtain rfl := String.toList_injective hk
  exact ⟨String.toList_injective hf, token_injective h h'⟩

theorem beforeSuffix?_eq_some_iff :
    beforeSuffix? token raw = some value ↔ raw = value ++ token := by
  rw [beforeSuffix?]
  constructor
  · intro h
    split at h
    · rename_i hs
      obtain ⟨front, hf⟩ := List.isSuffixOf_iff_suffix.mp hs
      cases h
      apply String.toList_injective
      simp [← hf]
    · contradiction
  · rintro rfl
    have hs : token.toList <:+ (value ++ token).toList := by simp
    rw [if_pos (List.isSuffixOf_iff_suffix.mpr hs)]
    simp

theorem valueBefore?_eq_some_iff : op.valueBefore? raw = some value ↔
    ∃ token spaces, op.token? = some token ∧ value.toList.getLast? ≠ some ' ' ∧
      raw = value ++ Text.spaces spaces ++ token := by
  simp only [valueBefore?, Option.bind_eq_bind, Option.bind_eq_some_iff, Option.pure_def,
    Option.some.injEq]
  constructor
  · rintro ⟨token, ht, front, hf, rfl⟩
    obtain ⟨n, hn⟩ := Text.exists_finalSpaces front
    refine ⟨token, n, ht, Text.getLast?_dropFinalSpaces front, ?_⟩
    rw [← hn]
    exact beforeSuffix?_eq_some_iff.mp hf
  · rintro ⟨token, n, ht, hb, hr⟩
    exact ⟨token, ht, _, beforeSuffix?_eq_some_iff.mpr hr, Text.dropFinalSpaces_spaces hb n⟩

theorem split_division (raw : String) : Division raw (split raw) := by
  rw [split]
  split
  · rename_i answer h
    obtain ⟨op, -, h⟩ := List.exists_of_findSome?_eq_some h
    obtain ⟨value, hv, rfl⟩ := Option.map_eq_some_iff.mp h
    obtain ⟨token, n, ht, hb, hr⟩ := valueBefore?_eq_some_iff.mp hv
    exact .marked n ht hb hr
  · rename_i h
    refine .unmarked fun op token front ht hr => ?_
    have hm : op ∈ marked := mem_marked_iff.mpr (exists_token_iff.mp ⟨token, ht⟩)
    have hn := List.findSome?_eq_none_iff.mp h op hm
    simp [valueBefore?, ht, beforeSuffix?_eq_some_iff.mpr hr] at hn

/-- A raw text is divided in one way only. -/
theorem Division.unique {r r' : Operation × String} (h : Division raw r) (h' : Division raw r') :
    r' = r := by
  cases h with
  | unmarked plain =>
    cases h' with
    | unmarked => rfl
    | marked _ asks _ text => exact absurd text (plain _ _ _ asks)
  | marked n asks bare text =>
    cases h' with
    | unmarked plain => exact absurd text (plain _ _ _ asks)
    | marked n' asks' bare' text' =>
      obtain ⟨hv, rfl⟩ := append_token_inj asks asks' (text.symm.trans text')
      rw [← Text.dropFinalSpaces_spaces bare n, hv, Text.dropFinalSpaces_spaces bare' n']

theorem split_eq_iff {r : Operation × String} : split raw = r ↔ Division raw r :=
  ⟨fun h => h ▸ split_division raw, fun h => h.unique (split_division raw)⟩

/-- A token behind some spaces is split off, and the spaces of the value itself with them. -/
theorem split_marked (h : op.token? = some token) (value : String) (spaces : Nat) :
    split (value ++ Text.spaces spaces ++ token) = (op, Text.dropFinalSpaces value) := by
  obtain ⟨n, hn⟩ := Text.exists_finalSpaces value
  have hv : value ++ Text.spaces spaces =
      Text.dropFinalSpaces value ++ Text.spaces (n + spaces) := by
    rw [Text.spaces_add, ← String.append_assoc, ← hn]
  rw [hv]
  exact split_eq_iff.mpr (.marked (n + spaces) h (Text.getLast?_dropFinalSpaces value) rfl)

/-- What is split off a raw text is a token and the spaces in front of it, and a text from which
nothing is split off ends with no token. A token that was written behind a value is split off
again, with the spaces in front of it and no other token. -/
theorem split_inverts_marking :
    (∀ raw op value, split raw = (op, value) →
      (op ≠ .overwrite → ∃ token spaces, op.token? = some token ∧
        raw = value ++ Text.spaces spaces ++ token ∧ value.toList.getLast? ≠ some ' ') ∧
      (op = .overwrite → value = raw ∧ Unmarked raw)) ∧
    ∀ op, op ≠ .overwrite → ∃ token, op.token? = some token ∧ ∀ value spaces,
      ∃ kept dropped, value = kept ++ Text.spaces dropped ∧ kept.toList.getLast? ≠ some ' ' ∧
        split (value ++ Text.spaces spaces ++ token) = (op, kept) := by
  refine ⟨fun raw op value h => ?_, fun op h => ?_⟩
  · cases split_eq_iff.mp h with
    | marked n asks bare text =>
      exact ⟨fun _ => ⟨_, n, asks, text, bare⟩, fun ho => absurd ho (exists_token_iff.mp ⟨_, asks⟩)⟩
    | unmarked plain => exact ⟨fun hn => absurd rfl hn, fun _ => ⟨rfl, plain⟩⟩
  · obtain ⟨token, ht⟩ := exists_token_iff.mpr h
    refine ⟨token, ht, fun value spaces => ?_⟩
    obtain ⟨n, hn⟩ := Text.exists_finalSpaces value
    exact ⟨_, n, hn, Text.getLast?_dropFinalSpaces value, split_marked ht value spaces⟩

/-- A value that ends like a removal, behind a tab, is reset: only the last token counts. -/
theorem split_two_tokens :
    split "a\t !-  !d" = (.reset, "a\t !-") ∧ Operation.reset ≠ .overwrite ∧
      ∃ token spaces, Operation.reset.token? = some token ∧
        "a\t !-  !d" = "a\t !-" ++ Text.spaces spaces ++ token ∧
          "a\t !-".toList.getLast? ≠ some ' ' := by
  have h : split "a\t !-  !d" = (.reset, "a\t !-") := by decide +kernel
  have hn : Operation.reset ≠ .overwrite := by decide
  exact ⟨h, hn, (split_inverts_marking.1 _ _ _ h).1 hn⟩

end FieldPatch.Operation
