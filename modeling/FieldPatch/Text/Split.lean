namespace FieldPatch.Text

/-- The parts of `s` between its marks; a text with `n` marks has `n + 1` parts. -/
def split (mark : Char) (s : String) : List String :=
  (s.toList.splitOn mark).map String.ofList

def join (mark : Char) (parts : List String) : String :=
  String.intercalate (String.singleton mark) parts

theorem toList_join (mark : Char) (parts : List String) :
    (join mark parts).toList = [mark].intercalate (parts.map String.toList) := by
  simp [join, String.toList_intercalate]

theorem split_ne_nil (mark : Char) (s : String) : split mark s ≠ [] := by
  simp [split, List.splitOn]

theorem join_split (mark : Char) (s : String) : join mark (split mark s) = s := by
  apply String.toList_injective
  rw [toList_join, split, List.map_map]
  have h : String.toList ∘ String.ofList = id := by
    funext l; simp
  rw [h, List.map_id, List.intercalate_splitOn]

/-- Parts that hold no mark are told apart again. -/
theorem split_join (mark : Char) {parts : List String} (nonempty : parts ≠ [])
    (unmarked : ∀ part ∈ parts, mark ∉ part.toList) : split mark (join mark parts) = parts := by
  rw [split, toList_join, List.splitOn_intercalate mark (by simpa using unmarked) (by simpa)]
  simp [List.map_map, Function.comp_def]

end FieldPatch.Text
