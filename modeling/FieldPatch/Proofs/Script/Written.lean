import FieldPatch.Proofs.Text.Parts
import FieldPatch.Proofs.Text.Spaces
import FieldPatch.Script

namespace FieldPatch

namespace ScriptStep

/-- A text with a colon in it is not blank. -/
theorem not_blank_of_mem {text : String} (h : separator ∈ text.toList) :
    Text.allBlank text = false := by
  rw [Text.allBlank, List.all_eq_false]
  exact ⟨separator, h, by decide⟩

/-- The text is a line for the step: the path, a colon, some spaces and the value. -/
structure WrittenAs (text : String) (step : ScriptStep) : Prop where
  named : step.path ≠ ""
  path_whole : separator ∉ step.path.toList
  value_whole : separator ∉ step.value.toList
  value_starts : step.value.toList.head? ≠ some ' '
  line : ∃ n, text = step.path ++ String.singleton separator ++ (Text.spaces n ++ step.value)

/-- A line is read as a step exactly if it is a line for it. -/
theorem parse_eq_some_iff {number : Nat} {text : String} {step : ScriptStep} :
    parse number text = .ok (some step) ↔ step.line = number ∧ step.WrittenAs text := by
  constructor
  · intro h
    rw [parse] at h
    split at h
    · rename_i path value hs
      have hw (part : String) (hm : part ∈ [path, value]) : separator ∉ part.toList :=
        Text.not_mem_of_mem_split (hs ▸ hm)
      have hj : path ++ String.singleton separator ++ value = text := by
        have hj := Text.join_split separator text
        rwa [hs, Text.join, String.intercalate_cons_cons, String.intercalate_singleton] at hj
      obtain ⟨n, hn⟩ := Text.exists_spaces value
      split at h
      · cases h
      · rename_i hp
        cases h
        refine ⟨rfl, by simpa using hp, hw path (by simp), ?_, Text.head?_dropSpaces value, n, ?_⟩
        · intro hm
          refine hw value (by simp) ?_
          rw [hn, String.toList_append]
          exact List.mem_append_right _ hm
        · rw [← hj, ← hn]
    · contradiction
  · rintro ⟨rfl, hw⟩
    obtain ⟨n, rfl⟩ := hw.line
    have hv : separator ∉ (Text.spaces n ++ step.value).toList := by
      rw [String.toList_append, Text.toList_spaces, List.mem_append, not_or]
      refine ⟨fun hm => ?_, hw.value_whole⟩
      have he : separator = ' ' := List.eq_of_mem_replicate hm
      contradiction
    have hp : step.path.isEmpty = false := by simpa using hw.named
    rw [parse, Text.split_pair hw.path_whole hv]
    simp only [hp, Bool.false_eq_true, if_false, Text.dropSpaces_spaces hw.value_starts]

end ScriptStep

namespace Script

/-- How a line is ended. -/
inductive LineEnd where
  | feed
  | returnFeed

def LineEnd.chars : LineEnd → List Char
  | feed => ['\n']
  | returnFeed => ['\r', '\n']

/-- A line of a script: a blank one, or a step with spaces in front of its value. -/
inductive Line where
  | blank (text : String)
  | step (path : String) (spaces : Nat) (value : String)

namespace Line

def text : Line → String
  | blank text => text
  | step path spaces value =>
    path ++ String.singleton ScriptStep.separator ++ (Text.spaces spaces ++ value)

/-- Nothing in the line is taken for something else: a blank line holds white space only, a step has
a path, and neither path nor value holds what divides or ends a line. -/
def Sound : Line → Prop
  | blank text => Text.allBlank text = true ∧ '\n' ∉ text.toList
  | step path _ value =>
    path ≠ "" ∧ ScriptStep.separator ∉ path.toList ∧ '\n' ∉ path.toList ∧
      ScriptStep.separator ∉ value.toList ∧ '\n' ∉ value.toList ∧
        value.toList.head? ≠ some ' ' ∧ value.toList.getLast? ≠ some '\r'

instance : DecidablePred Sound
  | blank _ => inferInstanceAs (Decidable (_ ∧ _))
  | step _ _ _ => inferInstanceAs (Decidable (_ ∧ _))

end Line

/-- The text of a script with the lines, each with its ending, and what follows the last of them. -/
def write (rows : List (Line × LineEnd)) (tail : String) : String :=
  String.ofList ((rows.flatMap fun row => row.1.text.toList ++ row.2.chars) ++ tail.toList)

/-- The steps on the lines, the first of which has the number `number`. -/
def stepsFrom (number : Nat) : List Line → List ScriptStep
  | [] => []
  | .blank _ :: rest => stepsFrom (number + 1) rest
  | .step path _ value :: rest => ⟨number, path, value⟩ :: stepsFrom (number + 1) rest

/-- A carriage return at the end of a line belongs to the ending. -/
def dropReturn (cs : List Char) : List Char := if cs.getLast? = some '\r' then cs.dropLast else cs

/-- A text without a line feed is one line, unless it is empty. -/
theorem lines_of_no_feed {text : String} (h : '\n' ∉ text.toList) :
    lines text = if text.isEmpty then [] else [text] := by
  have hs : text.toList.splitOn '\n' = [text.toList] := List.splitOn_eq_singleton h
  simp only [lines, hs, List.getLast?_singleton, Option.getD_some, List.dropLast_singleton,
    List.map_nil, List.nil_append, List.isEmpty_iff, String.toList_eq_nil_iff, String.isEmpty_iff]
  split
  · rfl
  · rw [List.map_singleton, String.ofList_toList]

/-- The first line of a text goes up to the first line feed. -/
theorem lines_feed {cs : List Char} (h : '\n' ∉ cs) (rest : List Char) :
    lines (String.ofList (cs ++ '\n' :: rest)) =
      String.ofList (dropReturn cs) :: lines (String.ofList rest) := by
  have hn : rest.splitOn '\n' ≠ [] := List.splitOn_ne_nil _ _
  have hs : (cs ++ '\n' :: rest).splitOn '\n' = cs :: rest.splitOn '\n' :=
    List.splitOn_append_cons_self_of_not_mem h rest
  simp only [lines, String.toList_ofList, hs, List.dropLast_cons_of_ne_nil hn,
    List.getLast?_cons_of_ne_nil hn, List.map_cons]
  split
  · rfl
  · rfl

theorem dropReturn_append_return (cs : List Char) : dropReturn (cs ++ ['\r']) = cs := by
  simp [dropReturn]

/-- What is seen of a line, once its ending is taken off. -/
def Line.seen (line : Line) : LineEnd → String
  | .feed => String.ofList (dropReturn line.text.toList)
  | .returnFeed => line.text

theorem Line.Sound.no_feed {line : Line} (h : line.Sound) : '\n' ∉ line.text.toList := by
  cases line with
  | blank text => exact h.2
  | step path spaces value =>
    obtain ⟨-, -, hp, -, hv, -, -⟩ := h
    simp only [Line.text, String.toList_append, String.toList_singleton, List.mem_append,
      Text.toList_spaces, not_or]
    refine ⟨⟨hp, by decide⟩, fun hm => ?_, hv⟩
    have he : '\n' = ' ' := List.eq_of_mem_replicate hm
    contradiction

theorem lines_write {rows : List (Line × LineEnd)} (h : ∀ row ∈ rows, row.1.Sound)
    (tail : String) :
    lines (write rows tail) = (rows.map fun row => row.1.seen row.2) ++ lines tail := by
  induction rows with
  | nil => rw [write, List.flatMap_nil, List.nil_append, String.ofList_toList]; rfl
  | cons row rest ih =>
    obtain ⟨line, ending⟩ := row
    have hl : '\n' ∉ line.text.toList := (h _ List.mem_cons_self).no_feed
    have hr := ih fun row hm => h row (List.mem_cons_of_mem _ hm)
    rw [List.map_cons, List.cons_append, ← hr, write, List.flatMap_cons, List.append_assoc]
    cases ending with
    | feed =>
      rw [LineEnd.chars, List.append_assoc, List.singleton_append]
      exact lines_feed hl _
    | returnFeed =>
      have hw : '\n' ∉ line.text.toList ++ ['\r'] := by
        rw [List.mem_append, not_or]
        exact ⟨hl, by decide⟩
      have he : line.text.toList ++ ['\r', '\n'] = (line.text.toList ++ ['\r']) ++ ['\n'] := by
        rw [List.append_assoc, List.singleton_append]
      rw [LineEnd.chars, he, List.append_assoc, List.singleton_append, lines_feed hw,
        dropReturn_append_return, Line.seen, String.ofList_toList]
      rfl

/-- A blank line is still blank without its ending. -/
theorem allBlank_seen {text : String} (h : Text.allBlank text = true) (ending : LineEnd) :
    Text.allBlank ((Line.blank text).seen ending) = true := by
  cases ending with
  | returnFeed => exact h
  | feed =>
    rw [Text.allBlank, List.all_eq_true] at h ⊢
    rw [Line.seen, String.toList_ofList, dropReturn]
    intro c hc
    apply h c
    split at hc
    · exact List.dropLast_subset _ hc
    · exact hc

section Step

variable {path value : String} {spaces : Nat}

theorem toList_step (path value : String) (spaces : Nat) :
    (Line.step path spaces value).text.toList =
      path.toList ++ [ScriptStep.separator] ++ (List.replicate spaces ' ' ++ value.toList) := by
  simp [Line.text, Text.toList_spaces]

theorem getLast?_step (h : value.toList.getLast? ≠ some '\r') :
    (Line.step path spaces value).text.toList.getLast? ≠ some '\r' := by
  rw [toList_step, List.getLast?_append, List.getLast?_append, List.getLast?_concat]
  cases hv : value.toList.getLast? with
  | some c =>
    rw [hv] at h
    exact h
  | none =>
    cases hs : (List.replicate spaces ' ').getLast? with
    | some c =>
      have hc : c = ' ' := List.eq_of_mem_replicate (List.mem_of_getLast? hs)
      simp [hc]
    | none => decide

/-- The ending of a step's line takes nothing of the value. -/
theorem seen_step (h : (Line.step path spaces value).Sound) (ending : LineEnd) :
    (Line.step path spaces value).seen ending = (Line.step path spaces value).text := by
  cases ending with
  | returnFeed => rfl
  | feed =>
    have hl : (Line.step path spaces value).text.toList.getLast? ≠ some '\r' :=
      getLast?_step h.2.2.2.2.2.2
    rw [Line.seen, dropReturn, if_neg hl, String.ofList_toList]

theorem not_allBlank_step (path value : String) (spaces : Nat) :
    Text.allBlank (Line.step path spaces value).text = false :=
  ScriptStep.not_blank_of_mem (by simp [toList_step])

theorem parse_step (h : (Line.step path spaces value).Sound) (number : Nat) :
    ScriptStep.parse number (Line.step path spaces value).text =
      .ok (some ⟨number, path, value⟩) := by
  obtain ⟨hn, hp, -, hv, -, hs, -⟩ := h
  exact ScriptStep.parse_eq_some_iff.mpr ⟨rfl, hn, hp, hv, hs, spaces, rfl⟩

end Step

/-- Blank text at the end of a script holds no step. -/
theorem filter_tail {tail : String} (h : (Line.blank tail).Sound) (number : Nat) :
    (numbered number (lines tail)).filter (fun (_, line) => !Text.allBlank line) = [] := by
  rw [lines_of_no_feed h.2]
  split
  · rfl
  · rw [numbered, numbered, List.filter_cons_of_neg (by simp [h.1]), List.filter_nil]

/-- Line by line, blank lines are passed over and the others give their steps. -/
theorem ofNumbered_seen {rows : List (Line × LineEnd)} {tail : String}
    (h : ∀ row ∈ rows, row.1.Sound) (ht : (Line.blank tail).Sound) (number : Nat) :
    ofNumbered ((numbered number ((rows.map fun row => row.1.seen row.2) ++ lines tail)).filter
      fun (_, line) => !Text.allBlank line) = (stepsFrom number (rows.map Prod.fst), []) := by
  induction rows generalizing number with
  | nil =>
    rw [List.map_nil, List.nil_append, filter_tail ht]
    rfl
  | cons row rest ih =>
    obtain ⟨line, ending⟩ := row
    have hl : line.Sound := h _ List.mem_cons_self
    have hr := ih (fun row hm => h row (List.mem_cons_of_mem _ hm)) (number + 1)
    simp only [List.map_cons, List.cons_append, numbered]
    cases line with
    | blank text =>
      have hb := allBlank_seen hl.1 ending
      rw [List.filter_cons_of_neg (by simp [hb]), hr]
      rfl
    | step path spaces value =>
      have hb := not_allBlank_step path value spaces
      rw [seen_step hl, List.filter_cons_of_pos (by simp [hb]), ofNumbered, hr, parse_step hl]
      rfl

/-- A script that was written is read without a fault as the steps in it, each with the number of
its line, and whatever is read as a step was written as it. -/
theorem reads_written_script (rows : List (Line × LineEnd)) (tail : String)
    (sound : ∀ row ∈ rows, row.1.Sound) (blank : (Line.blank tail).Sound) :
    parse (write rows tail) = ({ steps := stepsFrom 1 (rows.map Prod.fst) }, []) ∧
      ∀ number text step, ScriptStep.parse number text = .ok (some step) ↔
        step.line = number ∧ step.WrittenAs text := by
  refine ⟨?_, fun number text step => ScriptStep.parse_eq_some_iff⟩
  rw [parse, lines_write sound, ofNumbered_seen sound blank]

/-- Blank lines around two steps, one of which has no value and the other an operation in it. -/
theorem reads_two_steps :
    let rows : List (Line × LineEnd) := [(.blank " \t\r", .feed), (.step "^.parts" 0 "", .returnFeed),
      (.blank "", .feed), (.step "hp" 2 "1 !+ ", .feed), (.blank "  ", .returnFeed)]
    (∀ row ∈ rows, row.1.Sound) ∧ (Line.blank "\t").Sound ∧
      write rows "\t" = " \t\r\n^.parts:\r\n\nhp:  1 !+ \n  \r\n\t" ∧
      parse (write rows "\t") = ({ steps := [⟨2, "^.parts", ""⟩, ⟨4, "hp", "1 !+ "⟩] }, []) := by
  intro rows
  have hs : ∀ row ∈ rows, row.1.Sound := by decide +kernel
  have hb : (Line.blank "\t").Sound := by decide +kernel
  have hw : write rows "\t" = " \t\r\n^.parts:\r\n\nhp:  1 !+ \n  \r\n\t" := by decide +kernel
  exact ⟨hs, hb, hw, (reads_written_script rows "\t" hs hb).1⟩

end Script

end FieldPatch
