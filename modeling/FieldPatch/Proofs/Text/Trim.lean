import FieldPatch.Text.Blank

namespace FieldPatch.Text

theorem dropWhile_of_forall {α : Type} {p : α → Bool} {cs : List α} (h : ∀ c ∈ cs, p c = false) :
    cs.dropWhile p = cs := by
  cases cs with
  | nil => rfl
  | cons c rest => simp [h c List.mem_cons_self]

/-- What is trimmed stood between two blank texts. -/
theorem exists_trimChars (cs : List Char) : ∃ before after,
    (∀ c ∈ before, isBlank c) ∧ (∀ c ∈ after, isBlank c) ∧
      cs = before ++ trimChars cs ++ after := by
  have hb (ds : List Char) : ∀ c ∈ ds.takeWhile isBlank, isBlank c := fun c hc =>
    List.all_eq_true.mp List.all_takeWhile c hc
  let rest := cs.dropWhile isBlank
  refine ⟨cs.takeWhile isBlank, (rest.reverse.takeWhile isBlank).reverse, hb cs,
    fun c hc => hb _ c (List.mem_reverse.mp hc), ?_⟩
  rw [trimChars, dropFinal, List.append_assoc, ← List.reverse_append,
    List.takeWhile_append_dropWhile, List.reverse_reverse, List.takeWhile_append_dropWhile]

theorem trimChars_append {before core after : List Char} (hb : ∀ c ∈ before, isBlank c)
    (ha : ∀ c ∈ after, isBlank c) (hc : ∀ c ∈ core, isBlank c = false) :
    trimChars (before ++ core ++ after) = core := by
  have har : ∀ c ∈ after.reverse, isBlank c := fun c hm => ha c (List.mem_reverse.mp hm)
  have hcr : ∀ c ∈ core.reverse, isBlank c = false := fun c hm => hc c (List.mem_reverse.mp hm)
  rw [trimChars, List.append_assoc, List.dropWhile_append_of_pos hb]
  cases core with
  | nil =>
    have hd : (after ++ []).dropWhile isBlank = [] := List.dropWhile_append_of_pos ha
    rw [List.append_nil] at hd
    rw [List.nil_append, hd]
    rfl
  | cons c rest =>
    have hd : (c :: rest ++ after).dropWhile isBlank = c :: rest ++ after := by
      simp [hc c List.mem_cons_self]
    rw [hd, dropFinal, List.reverse_append, List.dropWhile_append_of_pos har,
      dropWhile_of_forall hcr, List.reverse_reverse]

theorem trimChars_of_forall {cs : List Char} (h : ∀ c ∈ cs, isBlank c = false) :
    trimChars cs = cs := by
  have hn : ∀ c ∈ ([] : List Char), isBlank c := List.forall_mem_nil _
  have ht := trimChars_append hn hn h
  rwa [List.nil_append, List.append_nil] at ht

end FieldPatch.Text
