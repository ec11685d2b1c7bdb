import FieldPatch.Proofs.Number.Written
import Mathlib.Algebra.Group.Int.Defs
import Mathlib.Data.List.Induction

namespace FieldPatch

namespace Integer

/-- Digits, and the number that they denote. The last digit counts ones, what stands before it
tens; zeros may lead. -/
inductive Digits : List Char → Nat → Prop
  | digit {d : Nat} (small : d < 10) : Digits [Nat.digitChar d] d
  | more {cs : List Char} {n d : Nat} (front : Digits cs n) (small : d < 10) :
      Digits (cs ++ [Nat.digitChar d]) (10 * n + d)

/-- Digits with a sign in front of them or none, and the number that they denote. -/
inductive Numeral : List Char → Int → Prop
  | unsigned {cs : List Char} {n : Nat} (digits : Digits cs n) : Numeral cs n
  | plus {cs : List Char} {n : Nat} (digits : Digits cs n) : Numeral ('+' :: cs) n
  | minus {cs : List Char} {n : Nat} (digits : Digits cs n) : Numeral ('-' :: cs) (-n)

/-- The text is a numeral for the number, with nothing but blank characters around it. -/
def Writes (text : String) (n : Int) : Prop :=
  ∃ before numeral after, (∀ c ∈ before, Text.isBlank c) ∧ (∀ c ∈ after, Text.isBlank c) ∧
    Numeral numeral n ∧ text.toList = before ++ numeral ++ after

variable {cs : List Char} {n : Nat}

theorem exists_digitChar {c : Char} (h : c.isDigit) : ∃ d < 10, c = Nat.digitChar d := by
  rw [Char.isDigit_iff_toNat] at h
  have hl : 48 ≤ c.toNat := h.1
  have hu : c.toNat ≤ 57 := h.2
  have hd : c.toNat - 48 < 10 := by omega
  refine ⟨c.toNat - 48, hd, Char.toNat_inj.mp ?_⟩
  rw [Nat.toNat_digitChar_of_lt_ten hd]
  omega

namespace Digits

theorem ne_nil (h : Digits cs n) : cs ≠ [] := by
  cases h <;> simp

theorem all_isDigit (h : Digits cs n) : cs.all Char.isDigit := by
  induction h with
  | digit small => simp [small]
  | more front small ih => simp [small, ih]

theorem ofDigitChars_eq (h : Digits cs n) : Nat.ofDigitChars 10 cs 0 = n := by
  induction h with
  | digit small => simp [Nat.ofDigitChars_cons, Nat.toNat_digitChar_of_lt_ten small]
  | more front small ih =>
    simp [Nat.ofDigitChars_append, ih, Nat.ofDigitChars_cons, Nat.toNat_digitChar_of_lt_ten small]

/-- Any digits denote a number. -/
theorem of_all_isDigit (hn : cs ≠ []) (h : cs.all Char.isDigit) :
    Digits cs (Nat.ofDigitChars 10 cs 0) := by
  -- The last digit is taken off, as the grammar puts it on.
  induction cs using List.reverseRecOn with
  | nil => contradiction
  | append_singleton front c ih =>
    rw [List.all_append, Bool.and_eq_true] at h
    obtain ⟨d, small, rfl⟩ := exists_digitChar (by simpa using h.2)
    have hc : Nat.ofDigitChars 10 (front ++ [Nat.digitChar d]) 0 =
        10 * Nat.ofDigitChars 10 front 0 + d := by
      simp [Nat.ofDigitChars_append, Nat.ofDigitChars_cons, Nat.toNat_digitChar_of_lt_ten small]
    rw [hc]
    by_cases hf : front = []
    · subst hf
      simpa using Digits.digit small
    · exact .more (ih hf h.1) small

end Digits

theorem digits?_eq_some_iff : digits? cs = some n ↔ Digits cs n := by
  rw [digits?]
  constructor
  · intro h
    split at h
    · rename_i hd
      cases h
      exact .of_all_isDigit hd.1 hd.2
    · contradiction
  · intro h
    rw [if_pos ⟨h.ne_nil, h.all_isDigit⟩, h.ofDigitChars_eq]

theorem signed?_eq_some_iff {m : Int} : signed? cs = some m ↔ Numeral cs m := by
  constructor
  · intro h
    rw [signed?.eq_def] at h
    split at h
    · obtain ⟨n, hn, rfl⟩ := Option.map_eq_some_iff.mp h
      exact .minus (digits?_eq_some_iff.mp hn)
    · obtain ⟨n, hn, rfl⟩ := Option.map_eq_some_iff.mp h
      exact .plus (digits?_eq_some_iff.mp hn)
    · obtain ⟨n, hn, rfl⟩ := Option.map_eq_some_iff.mp h
      exact .unsigned (digits?_eq_some_iff.mp hn)
  · intro h
    cases h with
    | unsigned digits =>
      rw [signed?_digits digits.all_isDigit, digits?_eq_some_iff.mpr digits, Option.map_some]
    | plus digits => rw [signed?, digits?_eq_some_iff.mpr digits, Option.map_some]
    | minus digits => rw [signed?, digits?_eq_some_iff.mpr digits, Option.map_some]

theorem Numeral.not_blank {m : Int} (h : Numeral cs m) : ∀ c ∈ cs, Text.isBlank c = false := by
  have hd {ds : List Char} {n : Nat} (digits : Digits ds n) :
      ∀ c ∈ ds, Text.isBlank c = false := fun c hc => by
    have hi := List.all_eq_true.mp digits.all_isDigit c hc
    exact not_blank_of_isNumeral (by simp [isNumeral, hi])
  cases h with
  | unsigned digits => exact hd digits
  | plus digits => exact List.forall_mem_cons.mpr ⟨by decide, hd digits⟩
  | minus digits => exact List.forall_mem_cons.mpr ⟨by decide, hd digits⟩

/-- A text writes a number exactly if a numeral for it is left when the text is trimmed. -/
theorem writes_iff {text : String} {m : Int} :
    Writes text m ↔ signed? (Text.trimChars text.toList) = some m := by
  rw [signed?_eq_some_iff]
  constructor
  · rintro ⟨before, numeral, after, hb, ha, hn, ht⟩
    rw [ht, Text.trimChars_append hb ha hn.not_blank]
    exact hn
  · intro hn
    obtain ⟨before, after, hb, ha, ht⟩ := Text.exists_trimChars text.toList
    exact ⟨before, _, after, hb, ha, hn, ht⟩

theorem ofInt?_eq_some_iff {m : Int} {number : Int32} :
    ofInt? m = some number ↔ number.toInt = m := by
  rw [ofInt?]
  constructor
  · intro h
    split at h
    · rename_i hm
      cases h
      exact Int32.toInt_ofInt_of_le hm.1 (Int.lt_add_one_of_le hm.2)
    · contradiction
  · rintro rfl
    rw [if_pos ⟨number.minValue_le_toInt, number.toInt_le⟩, Int32.ofInt_toInt]

/-- The numbers of 32 bits, one half of them negative. -/
theorem exists_toInt_iff {m : Int} : (∃ number : Int32, number.toInt = m) ↔
    -2 ^ 31 ≤ m ∧ m ≤ 2 ^ 31 - 1 := by
  constructor
  · rintro ⟨number, rfl⟩
    exact ⟨number.minValue_le_toInt, number.toInt_le⟩
  · rintro ⟨hl, hu⟩
    exact ⟨Int32.ofInt m, Int32.toInt_ofInt_of_le hl (Int.lt_add_one_of_le hu)⟩

theorem read?_eq_some_iff {text : String} {number : Int32} :
    read? text = some number ↔ Writes text number.toInt := by
  rw [read?, Option.bind_eq_some_iff, writes_iff]
  constructor
  · rintro ⟨m, hm, hn⟩
    rw [ofInt?_eq_some_iff.mp hn]
    exact hm
  · intro h
    exact ⟨_, h, ofInt?_eq_some_iff.mpr rfl⟩

/-- A text is read as a number exactly if it writes it, with one sign at most and with zeros in
front of it or none, and the number has 32 bits. Indices are the numbers read that are not negative,
and the decimal text of a number is read as it. -/
theorem reads_numerals (text : String) :
    (∀ m : Int, (read? text).map Int32.toInt = some m ↔
      Writes text m ∧ -2 ^ 31 ≤ m ∧ m ≤ 2 ^ 31 - 1) ∧
    (∀ i : Nat, index? text = some i ↔
      ∃ number, read? text = some number ∧ 0 ≤ number.toInt ∧ (i : Int) = number.toInt) ∧
    ∀ number : Int32, read? (Integer.text number) = some number := by
  refine ⟨fun m => ?_, fun i => ?_, read?_text⟩
  · rw [Option.map_eq_some_iff, ← exists_toInt_iff]
    simp only [read?_eq_some_iff]
    constructor
    · rintro ⟨number, hw, rfl⟩
      exact ⟨hw, number, rfl⟩
    · rintro ⟨hw, number, rfl⟩
      exact ⟨number, hw, rfl⟩
  · rw [index?, Option.bind_eq_some_iff]
    refine exists_congr fun number => and_congr_right fun _ => ?_
    constructor
    · intro h
      split at h
      · rename_i hn
        cases h
        exact ⟨hn, Int.toNat_of_nonneg hn⟩
      · contradiction
    · rintro ⟨hn, hi⟩
      rw [if_pos hn, ← hi, Int.toNat_natCast]

/-- Zeros may lead and a sign may stand in front, but not two of them, and the least number has no
counterpart. -/
example : read? " +007\n" = some 7 ∧ read? "-2147483648" = some (-2147483648) ∧
    read? "2147483648" = none ∧ read? "+-1" = none ∧ read? "1 2" = none ∧ read? "-" = none := by
  decide +kernel

end Integer

end FieldPatch
