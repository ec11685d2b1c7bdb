import FieldPatch.Text.Split

namespace FieldPatch.Text

theorem not_mem_of_mem_split {mark : Char} {s part : String} (h : part ∈ split mark s) :
    mark ∉ part.toList := by
  have hs (cs : List Char) : ∀ p ∈ cs.splitOn mark, mark ∉ p := by
    induction cs with
    | nil => simp
    | cons c rest ih =>
      rw [List.splitOn_cons_eq_if_modifyHead]
      split
      · simpa using ih
      · rename_i hc
        intro p hp
        cases hr : rest.splitOn mark with
        | nil => simp [hr] at hp
        | cons first others =>
          simp only [hr, List.modifyHead_cons, List.mem_cons] at hp
          rcases hp with rfl | hp
          · have hf := ih first (by simp [hr])
            rw [List.mem_cons, not_or]
            exact ⟨fun he => hc (by simp [he]), hf⟩
          · exact ih p (by simp [hr, hp])
  obtain ⟨cs, hc, rfl⟩ := List.mem_map.mp h
  simpa using hs s.toList cs hc

theorem length_split (mark : Char) (s : String) :
    (split mark s).length = s.toList.count mark + 1 := by
  have hs (cs : List Char) : (cs.splitOn mark).length = cs.count mark + 1 := by
    induction cs with
    | nil => simp
    | cons c rest ih =>
      rw [List.splitOn_cons_eq_if_modifyHead, List.count_cons]
      split
      · rw [List.length_cons, ih]
      · rw [List.length_modifyHead, ih, Nat.add_zero]
  rw [split, List.length_map, hs]

/-- The parts of a text are the only ones without a mark in them that it joins. -/
theorem split_eq_iff {mark : Char} {s : String} {parts : List String} :
    split mark s = parts ↔
      parts ≠ [] ∧ (∀ part ∈ parts, mark ∉ part.toList) ∧ join mark parts = s := by
  constructor
  · rintro rfl
    exact ⟨split_ne_nil mark s, fun _ => not_mem_of_mem_split, join_split mark s⟩
  · rintro ⟨hn, hm, rfl⟩
    exact split_join mark hn hm

/-- A text with one mark in it is cut in two. -/
theorem split_pair {mark : Char} {s t : String} (hs : mark ∉ s.toList) (ht : mark ∉ t.toList) :
    split mark (s ++ String.singleton mark ++ t) = [s, t] := by
  have hp : ∀ part ∈ [s, t], mark ∉ part.toList := by simp [hs, ht]
  have hj := split_join mark (List.cons_ne_nil s [t]) hp
  rwa [join, String.intercalate_cons_cons, String.intercalate_singleton] at hj

end FieldPatch.Text
