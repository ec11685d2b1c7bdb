import FieldPatch.Text.Blank

namespace FieldPatch.Text

def spaces (n : Nat) : String := String.ofList (List.replicate n ' ')

theorem toList_spaces (n : Nat) : (spaces n).toList = List.replicate n ' ' :=
  String.toList_ofList

theorem spaces_add (m n : Nat) : spaces (m + n) = spaces m ++ spaces n := by
  apply String.toList_injective
  simp [toList_spaces, List.replicate_append_replicate]

/-- Spaces in front of a text that starts with none are dropped, and nothing else. -/
theorem dropSpaces_spaces {s : String} (h : s.toList.head? ≠ some ' ') (n : Nat) :
    dropSpaces (spaces n ++ s) = s := by
  apply String.toList_injective
  rw [dropSpaces, String.toList_ofList, String.toList_append, toList_spaces]
  induction n with
  | zero =>
    rw [List.replicate_zero, List.nil_append]
    cases hs : s.toList with
    | nil => rfl
    | cons c rest =>
      have hc : (c == ' ') = false := by
        rw [beq_eq_false_iff_ne]
        intro he
        simp [hs, he] at h
      rw [List.dropWhile_cons_of_neg (by simp [hc])]
  | succ n ih => rw [List.replicate_succ, List.cons_append, List.dropWhile_cons_of_pos rfl, ih]

theorem exists_spaces (s : String) : ∃ n, s = spaces n ++ dropSpaces s := by
  refine ⟨(s.toList.takeWhile (· == ' ')).length, ?_⟩
  apply String.toList_injective
  have ht : List.replicate (s.toList.takeWhile (· == ' ')).length ' ' =
      s.toList.takeWhile (· == ' ') := by
    have ha : (s.toList.takeWhile (· == ' ')).all (· == ' ') = true := List.all_takeWhile
    exact (List.eq_replicate_of_mem fun c hc => beq_iff_eq.mp (List.all_eq_true.mp ha c hc)).symm
  rw [String.toList_append, toList_spaces, dropSpaces, String.toList_ofList, ht,
    List.takeWhile_append_dropWhile]

theorem head?_dropSpaces (s : String) : (dropSpaces s).toList.head? ≠ some ' ' := by
  rw [dropSpaces, String.toList_ofList]
  intro h
  have hd := List.head?_dropWhile_not (· == ' ') s.toList
  rw [h] at hd
  contradiction

/-- The text backwards, in which spaces at the end are spaces in front. -/
def reversed (s : String) : String := String.ofList s.toList.reverse

theorem toList_reversed (s : String) : (reversed s).toList = s.toList.reverse :=
  String.toList_ofList

theorem reversed_reversed (s : String) : reversed (reversed s) = s := by
  apply String.toList_injective
  rw [toList_reversed, toList_reversed, List.reverse_reverse]

theorem reversed_append_spaces (s : String) (n : Nat) :
    reversed (s ++ spaces n) = spaces n ++ reversed s := by
  apply String.toList_injective
  simp [toList_reversed, toList_spaces]

theorem dropFinalSpaces_eq (s : String) :
    dropFinalSpaces s = reversed (dropSpaces (reversed s)) := by
  simp [dropFinalSpaces, dropFinal, dropSpaces, reversed]

theorem head?_reversed (s : String) : (reversed s).toList.head? = s.toList.getLast? := by
  rw [toList_reversed, List.head?_reverse]

/-- Spaces behind a text that ends with none are dropped, and nothing else. -/
theorem dropFinalSpaces_spaces {s : String} (h : s.toList.getLast? ≠ some ' ') (n : Nat) :
    dropFinalSpaces (s ++ spaces n) = s := by
  have hr : (reversed s).toList.head? ≠ some ' ' := by
    rw [head?_reversed]
    exact h
  rw [dropFinalSpaces_eq, reversed_append_spaces, dropSpaces_spaces hr, reversed_reversed]

theorem exists_finalSpaces (s : String) : ∃ n, s = dropFinalSpaces s ++ spaces n := by
  obtain ⟨n, hn⟩ := exists_spaces (reversed s)
  refine ⟨n, ?_⟩
  apply String.toList_injective
  have hr := congrArg String.toList (congrArg reversed hn)
  simp only [reversed_reversed, toList_reversed, String.toList_append, List.reverse_append,
    toList_spaces, List.reverse_replicate] at hr
  rw [String.toList_append, toList_spaces, dropFinalSpaces_eq, toList_reversed]
  exact hr

theorem getLast?_dropFinalSpaces (s : String) :
    (dropFinalSpaces s).toList.getLast? ≠ some ' ' := by
  rw [dropFinalSpaces_eq, ← head?_reversed, reversed_reversed]
  exact head?_dropSpaces _

end FieldPatch.Text
