import FieldPatch.Number.Integer
import FieldPatch.Proofs.Text.Trim
import Mathlib.Algebra.Group.Nat.Defs

namespace FieldPatch

namespace Integer

def isNumeral (c : Char) : Bool := c == '-' || c.isDigit

theorem not_blank_of_isNumeral {c : Char} (h : isNumeral c) : Text.isBlank c = false := by
  simp only [isNumeral, Bool.or_eq_true, beq_iff_eq, Char.isDigit_iff_toNat] at h
  rcases h with rfl | h
  · decide
  · have hl : 48 ≤ c.toNat := h.1
    have hu : c.toNat ≤ 57 := h.2
    simp only [Text.isBlank, Bool.or_eq_false_iff, Bool.and_eq_false_iff, decide_eq_false_iff_not,
      beq_eq_false_iff_ne]
    omega

theorem all_isDigit_toDigits (n : Nat) : (Nat.toDigits 10 n).all Char.isDigit := by
  rw [List.all_eq_true]
  exact fun c hc => Nat.isDigit_of_mem_toDigits (by omega) (by omega) hc

theorem digits?_toDigits (n : Nat) : digits? (Nat.toDigits 10 n) = some n := by
  simp [digits?, Nat.toDigits_ne_nil, all_isDigit_toDigits n]

theorem toList_repr (n : Int) : n.repr.toList =
    if 0 ≤ n then Nat.toDigits 10 n.toNat else '-' :: Nat.toDigits 10 (-n).toNat := by
  rw [Int.repr_eq_if]
  split <;> simp

theorem repr_ne_nil (n : Int) : n.repr.toList ≠ [] := by
  rw [toList_repr]
  split
  · exact Nat.toDigits_ne_nil
  · exact List.cons_ne_nil _ _

theorem isNumeral_of_mem_repr {n : Int} {c : Char} (h : c ∈ n.repr.toList) : isNumeral c := by
  rw [toList_repr] at h
  split at h
  · simp [isNumeral, Nat.isDigit_of_mem_toDigits (by omega) (by omega) h]
  · rcases List.mem_cons.mp h with rfl | h
    · rfl
    · simp [isNumeral, Nat.isDigit_of_mem_toDigits (by omega) (by omega) h]

theorem signed?_digits {cs : List Char} (h : cs.all Char.isDigit) :
    signed? cs = (digits? cs).map fun n : Nat => (n : Int) := by
  simp only [signed?]
  split
  · simp at h
  · simp at h
  · rfl

theorem signed?_repr (n : Int) : signed? n.repr.toList = some n := by
  rw [toList_repr]
  split
  · rw [signed?_digits (all_isDigit_toDigits _), digits?_toDigits, Option.map_some,
      Int.toNat_of_nonneg ‹_›]
  · have hn : -((-n).toNat : Int) = n := by omega
    simp only [signed?, digits?_toDigits, Option.map_some, hn]

theorem read?_repr (n : Int) : read? n.repr = ofInt? n := by
  have hb : ∀ c ∈ n.repr.toList, Text.isBlank c = false :=
    fun c hc => not_blank_of_isNumeral (isNumeral_of_mem_repr hc)
  simp [read?, Text.trimChars_of_forall hb, signed?_repr]

theorem read?_text (n : Int32) : read? (text n) = some n := by
  rw [text, Int.toString_eq_repr, read?_repr, ofInt?,
    if_pos ⟨n.minValue_le_toInt, n.toInt_le⟩, Int32.ofInt_toInt]

/-- An index of 31 bits is read back from its text. -/
theorem index?_toString {i : Nat} (h : i < 2 ^ 31) : index? (toString i) = some i := by
  have hr : toString i = (i : Int).repr := rfl
  have hi : (Int32.ofInt i).toInt = i := Int32.toInt_ofInt_of_le (by omega) (by omega)
  have hb : Int32.minValue.toInt ≤ (i : Int) ∧ (i : Int) ≤ Int32.maxValue.toInt := by
    rw [← hi]
    exact ⟨Int32.minValue_le_toInt _, Int32.toInt_le _⟩
  simp only [index?, hr, read?_repr, ofInt?, if_pos hb, Option.bind_some, hi, Int.natCast_nonneg,
    if_true, Int.toNat_natCast]

end Integer

end FieldPatch
