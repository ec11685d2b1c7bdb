import FieldPatch.Proofs.Script.Written
import Mathlib.Data.List.Basic

namespace FieldPatch

namespace ScriptStep

/-- The only colon of the line is its first character. -/
def Pathless (line : String) : Prop :=
  line.toList.head? = some separator ∧ line.toList.count separator = 1

instance (line : String) : Decidable (Pathless line) := inferInstanceAs (Decidable (_ ∧ _))

/-- What becomes of the line with the number: a step, nothing, or a fault. -/
inductive Reading (number : Nat) (line : String) : Except ScriptFault (Option ScriptStep) → Prop
  | step {step : ScriptStep} (numbered : step.line = number) (written : step.WrittenAs line) :
      Reading number line (.ok (some step))
  | nothing (pathless : Pathless line) : Reading number line (.ok none)
  | fault (odd : line.toList.count separator ≠ 1) : Reading number line (.error ⟨number, line⟩)

variable {number : Nat} {line : String} {step : ScriptStep}

theorem WrittenAs.not_pathless (h : step.WrittenAs line) : ¬ Pathless line := by
  rintro ⟨hf, -⟩
  obtain ⟨n, rfl⟩ := h.line
  have hn : step.path.toList ≠ [] := by simpa using h.named
  rw [String.append_assoc, String.toList_append, List.head?_append_of_ne_nil _ hn] at hf
  exact h.path_whole (List.mem_of_head? hf)

theorem WrittenAs.not_blank (h : step.WrittenAs line) : Text.allBlank line = false := by
  obtain ⟨n, rfl⟩ := h.line
  exact not_blank_of_mem (by simp)

theorem pathless_of_split {value : String} (h : Text.split separator line = ["", value]) :
    Pathless line := by
  obtain ⟨-, -, hj⟩ := Text.split_eq_iff.mp h
  have hl := Text.length_split separator line
  rw [h] at hl
  refine ⟨?_, by simpa using hl.symm⟩
  rw [← hj, Text.toList_join]
  rfl

theorem parse_reading (number : Nat) (line : String) : Reading number line (parse number line) := by
  cases h : parse number line with
  | ok found =>
    cases found with
    | some step =>
      obtain ⟨hn, hw⟩ := parse_eq_some_iff.mp h
      exact .step hn hw
    | none =>
      rw [parse] at h
      split at h
      · rename_i path value hs
        split at h
        · rename_i hp
          rw [String.isEmpty_iff.mp hp] at hs
          exact .nothing (pathless_of_split hs)
        · cases h
      · contradiction
  | error fault =>
    rw [parse] at h
    split at h
    · contradiction
    · rename_i hs
      cases h
      refine .fault fun hc => ?_
      obtain ⟨path, value, he⟩ := List.length_eq_two.mp
        ((Text.length_split separator line).trans (congrArg (· + 1) hc))
      exact hs path value he

end ScriptStep

namespace Script

/-- A line and its number. -/
abbrev Row := Nat × String

def Row.blank (row : Row) : Bool := Text.allBlank row.2

def Row.step? (row : Row) : Option ScriptStep :=
  match ScriptStep.parse row.1 row.2 with
  | .ok step => step
  | .error _ => none

def Row.fault? (row : Row) : Option ScriptFault :=
  match ScriptStep.parse row.1 row.2 with
  | .ok _ => none
  | .error fault => some fault

theorem ofNumbered_eq (rows : List Row) :
    ofNumbered rows = (rows.filterMap Row.step?, rows.filterMap Row.fault?) := by
  induction rows with
  | nil => rfl
  | cons row rest ih =>
    rw [ofNumbered, ih]
    simp only [List.filterMap_cons, Row.step?, Row.fault?]
    cases ScriptStep.parse row.1 row.2 with
    | error fault => rfl
    | ok found => cases found <;> rfl

namespace Row

variable {row : Row} {step : ScriptStep} {fault : ScriptFault}

theorem written_of_step? (h : row.step? = some step) :
    step.line = row.1 ∧ step.WrittenAs row.2 := by
  have hr := ScriptStep.parse_reading row.1 row.2
  rw [step?] at h
  generalize ScriptStep.parse row.1 row.2 = found at h hr
  cases hr with
  | step numbered written =>
    cases h
    exact ⟨numbered, written⟩
  | nothing pathless => cases h
  | fault odd => cases h

theorem quoted_of_fault? (h : row.fault? = some fault) :
    fault = ⟨row.1, row.2⟩ ∧ row.2.toList.count ScriptStep.separator ≠ 1 := by
  have hr := ScriptStep.parse_reading row.1 row.2
  rw [fault?] at h
  generalize ScriptStep.parse row.1 row.2 = found at h hr
  cases hr with
  | step numbered written => cases h
  | nothing pathless => cases h
  | fault odd =>
    cases h
    exact ⟨rfl, odd⟩

/-- One thing becomes of a line. -/
theorem once (row : Row) : row.step?.toList.length + row.fault?.toList.length +
    (if ScriptStep.Pathless row.2 then 1 else 0) = 1 := by
  have hr := ScriptStep.parse_reading row.1 row.2
  rw [step?, fault?]
  generalize ScriptStep.parse row.1 row.2 = found at hr
  cases hr with
  | step numbered written => rw [if_neg written.not_pathless]; rfl
  | nothing pathless => rw [if_pos pathless]; rfl
  | fault odd => rw [if_neg fun hp => odd hp.2]; rfl

end Row

/-- The numbers of the rows increase. -/
def Ascending (rows : List Row) : Prop := rows.Pairwise fun row later => row.1 < later.1

variable {all : List String} {rows : List Row}

theorem numbered_eq (start : Nat) (all : List String) :
    numbered start all = (all.zipIdx start).map Prod.swap := by
  induction all generalizing start with
  | nil => rfl
  | cons line rest ih => rw [numbered, ih, List.zipIdx_cons, List.map_cons, Prod.swap_prod_mk]

theorem mem_numbered_iff {start : Nat} {row : Row} : row ∈ numbered start all ↔
    start ≤ row.1 ∧ all[row.1 - start]? = some row.2 := by
  rw [numbered_eq, List.mem_map]
  constructor
  · rintro ⟨⟨line, n⟩, hm, rfl⟩
    exact List.mk_mem_zipIdx_iff_le_and_getElem?_sub.mp hm
  · intro h
    exact ⟨(row.2, row.1), List.mk_mem_zipIdx_iff_le_and_getElem?_sub.mpr h, rfl⟩

theorem ascending_numbered (start : Nat) (all : List String) :
    Ascending (numbered start all) := by
  induction all generalizing start with
  | nil => exact List.Pairwise.nil
  | cons line rest ih =>
    exact List.pairwise_cons.mpr ⟨fun row hm => (mem_numbered_iff.mp hm).1, ih (start + 1)⟩

section Key

variable {α : Type} {f : Row → Option α} {number : α → Nat}

/-- What is made of rows in order, each with the number of its row, is in order. -/
theorem Ascending.filterMap (h : Ascending rows)
    (hn : ∀ row a, f row = some a → number a = row.1) :
    (rows.filterMap f).Pairwise fun a b => number a < number b := by
  rw [List.pairwise_filterMap]
  refine h.imp fun {row later} hl a ha b hb => ?_
  rw [hn row a ha, hn later b hb]
  exact hl

/-- What is made of a row is all that has its number. -/
theorem Ascending.countP_filterMap (h : Ascending rows)
    (hn : ∀ row a, f row = some a → number a = row.1) {row : Row} (hm : row ∈ rows) :
    (rows.filterMap f).countP (number · == row.1) = (f row).toList.length := by
  have hz (later : List Row) (hl : ∀ other ∈ later, row.1 ≠ other.1) :
      (later.filterMap f).countP (number · == row.1) = 0 := by
    rw [List.countP_eq_zero]
    intro a ha he
    obtain ⟨other, ho, hf⟩ := List.mem_filterMap.mp ha
    exact hl other ho ((beq_iff_eq.mp he).symm.trans (hn other a hf))
  have hs (other : Row) (rest : List Row) : (other :: rest).filterMap f =
      (f other).toList ++ rest.filterMap f := by
    cases ho : f other <;> simp [ho]
  -- The rows on either side of the one with the number have other numbers.
  induction rows with
  | nil => contradiction
  | cons first rest ih =>
    obtain ⟨hf, hr⟩ := List.pairwise_cons.mp h
    rw [hs, List.countP_append]
    rcases List.mem_cons.mp hm with rfl | hm
    · rw [hz rest fun other ho => Nat.ne_of_lt (hf other ho), Nat.add_zero]
      refine List.countP_eq_length.mpr fun a ha => ?_
      rw [hn row a (Option.mem_toList.mp ha)]
      exact beq_self_eq_true _
    · have hl := hz [first] (by simpa using (Nat.ne_of_lt (hf row hm)).symm)
      rw [hs, List.filterMap_nil, List.append_nil] at hl
      rw [hl, Nat.zero_add, ih hr hm]

end Key

/-- The steps and the faults account for the lines: each is written on the line with its number,
they come in the order of the lines, and each line that is not blank is one of them, unless it has
no path. -/
structure Accounts (all : List String) (steps : List ScriptStep) (faults : List ScriptFault) :
    Prop where
  steps_written : ∀ step ∈ steps, 1 ≤ step.line ∧
    ∃ line, all[step.line - 1]? = some line ∧ step.WrittenAs line
  faults_quoted : ∀ fault ∈ faults, 1 ≤ fault.line ∧ all[fault.line - 1]? = some fault.text ∧
    fault.text.toList.count ScriptStep.separator ≠ 1
  once : ∀ i line, all[i]? = some line → Text.allBlank line = false →
    steps.countP (·.line == i + 1) + faults.countP (·.line == i + 1) +
      (if ScriptStep.Pathless line then 1 else 0) = 1
  steps_ascend : steps.Pairwise fun step later => step.line < later.line
  faults_ascend : faults.Pairwise fun fault later => fault.line < later.line

/-- Rows account for the lines if no row is left out but blank ones. -/
theorem accounts_of_rows (hs : rows.Sublist (numbered 1 all))
    (hf : ∀ row ∈ numbered 1 all, Row.blank row = false → row ∈ rows) :
    Accounts all (rows.filterMap Row.step?) (rows.filterMap Row.fault?) := by
  have ha : Ascending rows := (ascending_numbered 1 all).sublist hs
  have hk : ∀ row step, Row.step? row = some step → step.line = row.1 :=
    fun row step h => (Row.written_of_step? h).1
  have hl : ∀ row fault, Row.fault? row = some fault → fault.line = row.1 :=
    fun row fault h => by rw [(Row.quoted_of_fault? h).1]
  refine ⟨fun step hm => ?_, fun fault hm => ?_, fun i line hi hb => ?_, ha.filterMap hk,
    ha.filterMap hl⟩
  · obtain ⟨row, hr, h⟩ := List.mem_filterMap.mp hm
    obtain ⟨hn, hw⟩ := Row.written_of_step? h
    obtain ⟨hp, hg⟩ := mem_numbered_iff.mp (hs.subset hr)
    rw [hn]
    exact ⟨hp, row.2, hg, hw⟩
  · obtain ⟨row, hr, h⟩ := List.mem_filterMap.mp hm
    obtain ⟨rfl, odd⟩ := Row.quoted_of_fault? h
    obtain ⟨hp, hg⟩ := mem_numbered_iff.mp (hs.subset hr)
    exact ⟨hp, hg, odd⟩
  · have hm : (i + 1, line) ∈ rows := hf _ (mem_numbered_iff.mpr ⟨Nat.le_add_left 1 i, hi⟩) hb
    have hc := ha.countP_filterMap hk hm
    have hd := ha.countP_filterMap hl hm
    rw [hc, hd]
    exact Row.once (i + 1, line)

theorem step?_of_blank {row : Row} (h : row.blank = true) : row.step? = none := by
  rw [Option.eq_none_iff_forall_ne_some]
  intro step hs
  have hn := (Row.written_of_step? hs).2.not_blank
  exact absurd (h.symm.trans hn) (by decide)

def filled (rows : List Row) : List Row := rows.filter fun row => !row.blank

/-- Blank rows hold no step, so that no step is lost with them. -/
theorem steps_of_filled (rows : List Row) :
    (filled rows).filterMap Row.step? = rows.filterMap Row.step? := by
  rw [filled, List.filterMap_filter]
  refine List.filterMap_congr fun row _ => ?_
  cases hb : row.blank with
  | false => rfl
  | true => exact (step?_of_blank hb).symm

/-- The faults of the rows that are not blank are those that quote no blank line. -/
theorem faults_of_filled (rows : List Row) :
    (filled rows).filterMap Row.fault? =
      (rows.filterMap Row.fault?).filter fun fault => !Text.allBlank fault.text := by
  rw [filled, List.filterMap_filter, List.filter_filterMap]
  refine List.filterMap_congr fun row _ => ?_
  cases hf : row.fault? with
  | none => simp
  | some fault =>
    obtain ⟨rfl, -⟩ := Row.quoted_of_fault? hf
    rfl

/-- A text is read as its lines are, but that blank lines are no faults in it. In both ways of
reading, each line that is not blank is accounted for once, in the order of the lines. -/
theorem parse_accounts_for_lines (text : String) :
    let ofText := parse text
    let ofList := ofLines (lines text)
    ofText.1 = ofList.1 ∧
      ofText.2 = ofList.2.filter (fun fault => !Text.allBlank fault.text) ∧
      Accounts (lines text) ofText.1.steps ofText.2 ∧
      Accounts (lines text) ofList.1.steps ofList.2 := by
  let rows := numbered 1 (lines text)
  have ht : parse text =
      ({ steps := (filled rows).filterMap Row.step? }, (filled rows).filterMap Row.fault?) := by
    rw [parse, ofNumbered_eq]
    rfl
  have hl : ofLines (lines text) =
      ({ steps := rows.filterMap Row.step? }, rows.filterMap Row.fault?) := by
    rw [ofLines, ofNumbered_eq]
  dsimp only
  rw [ht, hl, steps_of_filled]
  refine ⟨rfl, faults_of_filled rows, ?_, accounts_of_rows (List.Sublist.refl _) fun _ hm _ => hm⟩
  rw [← steps_of_filled]
  exact accounts_of_rows List.filter_sublist fun row hm hb => List.mem_filter.mpr ⟨hm, by simp [hb]⟩

/-- A blank line is a fault in a list of lines only, and a line without a path is none in either. -/
example : parse " \n:x\r\na: 1\nb" = ({ steps := [⟨3, "a", "1"⟩] }, [⟨4, "b"⟩]) ∧
    ofLines (lines " \n:x\r\na: 1\nb") =
      ({ steps := [⟨3, "a", "1"⟩] }, [⟨1, " "⟩, ⟨4, "b"⟩]) := by
  decide +kernel

end Script

end FieldPatch
