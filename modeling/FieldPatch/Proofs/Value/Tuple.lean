import FieldPatch.Proofs.Text.Parts
import FieldPatch.Value.Decode

namespace FieldPatch

namespace Literal

/-- The text is the parts in parentheses, with a comma between each two. -/
structure Divided (raw : String) (parts : List String) : Prop where
  text : raw = "(" ++ Text.join ',' parts ++ ")"
  whole : ∀ part ∈ parts, ',' ∉ part.toList
  commas : raw.toList.count ',' + 1 = parts.length

/-- The text is a tuple of texts that are read as the numbers. -/
def Spells (raw : String) (numbers : List Binary32) : Prop :=
  ∃ parts, Divided raw parts ∧ parts.map Binary32.read? = numbers.map some

/-- What is wrong with a tuple; positions count from one. -/
inductive Defect where
  | parentheses
  | count (found : Nat)
  | part (position : Nat) (text : String)

/-- The first check that the text does not pass, if tuples of some sizes are asked for. -/
inductive FirstDefect (sizes : List Nat) (raw : String) : Defect → Prop
  | parentheses (bare : ∀ inner, raw ≠ "(" ++ inner ++ ")") : FirstDefect sizes raw .parentheses
  | count {parts : List String} (divided : Divided raw parts) (wrong : parts.length ∉ sizes) :
      FirstDefect sizes raw (.count parts.length)
  | part {good rest : List String} {part : String} (divided : Divided raw (good ++ part :: rest))
      (right : (good ++ part :: rest).length ∈ sizes) (read : ∀ p ∈ good, Binary32.read? p ≠ none)
      (unread : Binary32.read? part = none) : FirstDefect sizes raw (.part (good.length + 1) part)

/-- The numbers are the channels of the colour, which is opaque if it has three of them. -/
inductive Channels : List Binary32 → Color → Prop
  | solid (r g b : Binary32) : Channels [r, g, b] ⟨r, g, b, .one⟩
  | given (r g b a : Binary32) : Channels [r, g, b, a] ⟨r, g, b, a⟩

def Defect.inVector (dim : Dim) : Defect → Misread
  | parentheses => .missingParentheses
  | count found => .componentCount dim.size found
  | part position _ => .badComponent position

def Defect.inColor : Defect → Misread
  | parentheses => .missingParentheses
  | count found => .color (.channelCount found)
  | part position text => .color (.badChannel position (Text.trim text))

variable {raw inner : String} {parts : List String} {sizes : List Nat}

theorem inner?_eq_some_iff : inner? raw = some inner ↔ raw = "(" ++ inner ++ ")" := by
  have ht : ("(" ++ inner ++ ")").toList = '(' :: (inner.toList ++ [')']) := by simp
  rw [inner?]
  constructor
  · intro h
    split at h
    · rename_i rest hr
      split at h
      · rename_i hl
        obtain ⟨front, rfl⟩ := List.getLast?_eq_some_iff.mp hl
        cases h
        apply String.toList_injective
        rw [hr, ht]
        simp
      · contradiction
    · contradiction
  · rintro rfl
    rw [ht]
    simp

theorem divided_iff : Divided ("(" ++ inner ++ ")") parts ↔ Text.split ',' inner = parts := by
  have hc : ("(" ++ inner ++ ")").toList.count ',' = inner.toList.count ',' := by
    simp
  constructor
  · intro h
    have hj : Text.join ',' parts = inner := by
      have ht := h.text
      simpa using ht.symm
    refine Text.split_eq_iff.mpr ⟨?_, h.whole, hj⟩
    rintro rfl
    have hl := h.commas
    simp at hl
  · intro h
    obtain ⟨-, hw, hj⟩ := Text.split_eq_iff.mp h
    refine ⟨by rw [hj], hw, ?_⟩
    rw [hc, ← h, Text.length_split]

/-- Either all parts are read, or there is a first one that is not. -/
theorem parts_cases (parts : List String) :
    (∃ numbers : List Binary32, parts.map Binary32.read? = numbers.map some) ∨
      ∃ good part rest, parts = good ++ part :: rest ∧ (∀ p ∈ good, Binary32.read? p ≠ none) ∧
        Binary32.read? part = none := by
  induction parts with
  | nil => exact .inl ⟨[], rfl⟩
  | cons part rest ih =>
    cases hp : Binary32.read? part with
    | none => exact .inr ⟨[], part, rest, rfl, by simp, hp⟩
    | some x =>
      rcases ih with ⟨xs, hx⟩ | ⟨good, bad, behind, rfl, hg, hb⟩
      · exact .inl ⟨x :: xs, by rw [List.map_cons, hp, hx, List.map_cons]⟩
      · refine .inr ⟨part :: good, bad, behind, rfl, List.forall_mem_cons.mpr ⟨?_, hg⟩, hb⟩
        rw [hp]
        exact Option.some_ne_none x

/-- A text spells as many numbers as one of the sizes, or it has a defect. -/
theorem spells_or_defect (sizes : List Nat) (raw : String) :
    (∃ numbers, Spells raw numbers ∧ numbers.length ∈ sizes) ∨
      ∃ defect, FirstDefect sizes raw defect := by
  cases hi : inner? raw with
  | none =>
    refine .inr ⟨_, .parentheses fun inner h => ?_⟩
    rw [inner?_eq_some_iff.mpr h] at hi
    contradiction
  | some inner =>
    obtain rfl := inner?_eq_some_iff.mp hi
    obtain ⟨parts, hs⟩ : ∃ parts, Text.split ',' inner = parts := ⟨_, rfl⟩
    have hd : Divided _ parts := divided_iff.mpr hs
    by_cases hl : parts.length ∈ sizes
    · rcases parts_cases parts with ⟨numbers, hn⟩ | ⟨good, part, rest, rfl, hg, hb⟩
      · have he : parts.length = numbers.length := by simpa using congrArg List.length hn
        exact .inl ⟨numbers, ⟨parts, hd, hn⟩, he ▸ hl⟩
      · exact .inr ⟨_, .part hd hl hg hb⟩
    · exact .inr ⟨_, .count hd hl⟩

/-- Where all parts are read, the numbers are what they are read as. -/
theorem numbers_of_read (position : Nat) {xs : List Binary32}
    (h : parts.map Binary32.read? = xs.map some) :
    ∃ hl, numbers position parts = .ok ⟨xs, hl⟩ := by
  induction parts generalizing position xs with
  | nil =>
    cases xs with
    | nil => exact ⟨rfl, rfl⟩
    | cons x xs => cases h
  | cons part rest ih =>
    cases xs with
    | nil => cases h
    | cons x xs =>
      obtain ⟨hp, hr⟩ := List.cons.inj h
      obtain ⟨hl, hn⟩ := ih (position + 1) hr
      exact ⟨by simp [hl], by rw [numbers, hp, hn]⟩

/-- Where a part is not read, the first such part is at fault. -/
theorem numbers_of_unread {position : Nat} {good rest : List String} {part : String}
    (h : parts = good ++ part :: rest) (hg : ∀ p ∈ good, Binary32.read? p ≠ none)
    (hb : Binary32.read? part = none) :
    numbers position parts = .error (good.length + position, part) := by
  -- The parts are not replaced in the statement, since the type of the numbers depends on them.
  induction good generalizing position parts with
  | nil =>
    subst h
    simp [numbers, hb]
  | cons first good ih =>
    subst h
    obtain ⟨hf, hg⟩ := List.forall_mem_cons.mp hg
    obtain ⟨x, hx⟩ := Option.ne_none_iff_exists'.mp hf
    simp [numbers, hx, ih rfl hg, Nat.add_right_comm, Nat.add_assoc]

theorem inner?_eq_none (h : ∀ inner, raw ≠ "(" ++ inner ++ ")") : inner? raw = none :=
  Option.eq_none_iff_forall_ne_some.mpr fun inner hi => h inner (inner?_eq_some_iff.mp hi)

theorem Divided.exists_inner (h : Divided raw parts) :
    ∃ inner, inner? raw = some inner ∧ Text.split ',' inner = parts := by
  obtain rfl := h.text
  exact ⟨_, inner?_eq_some_iff.mpr rfl, divided_iff.mp h⟩

section Vector

variable {dim : Dim}

theorem vector_of_numbers {numbers : Vector Binary32 dim.size} (h : Spells raw numbers.toList) :
    vector dim raw = .ok numbers := by
  obtain ⟨parts, hd, hn⟩ := h
  obtain ⟨inner, hi, rfl⟩ := hd.exists_inner
  obtain ⟨hl, hr⟩ := numbers_of_read 1 hn
  have hs : (Text.split ',' inner).length = dim.size := by simpa using congrArg List.length hn
  have ht : numbers.toList.toArray = numbers.toArray := Array.toArray_toList
  simp [vector, hi, hs, hr, ht]

theorem vector_of_defect {defect : Defect} (h : FirstDefect [dim.size] raw defect) :
    vector dim raw = .error (defect.inVector dim) := by
  cases h with
  | parentheses bare => rw [vector, inner?_eq_none bare]; rfl
  | count divided wrong =>
    obtain ⟨inner, hi, rfl⟩ := divided.exists_inner
    have hw := mt List.mem_singleton.mpr wrong
    simp [vector, hi, hw, Defect.inVector]
  | part divided right read unread =>
    obtain ⟨inner, hi, hs⟩ := divided.exists_inner
    have hr := List.mem_singleton.mp (hs ▸ right)
    simp [vector, hi, hr, numbers_of_unread hs read unread, Defect.inVector]

end Vector

theorem color_of_numbers {numbers : List Binary32} {channels : Color} (h : Spells raw numbers)
    (hc : Channels numbers channels) : color raw = .ok channels := by
  obtain ⟨parts, hd, hn⟩ := h
  obtain ⟨inner, hi, rfl⟩ := hd.exists_inner
  obtain ⟨hl, hr⟩ := numbers_of_read 1 hn
  have hs : (Text.split ',' inner).length = numbers.length := by simpa using congrArg List.length hn
  cases hc with
  | solid r g b => simp [color, hi, colorChannels, hs, hr]
  | given r g b a => simp [color, hi, colorChannels, hs, hr]

theorem color_of_defect {defect : Defect} (h : FirstDefect [3, 4] raw defect) :
    color raw = .error defect.inColor := by
  cases h with
  | parentheses bare => rw [color, inner?_eq_none bare]; rfl
  | count divided wrong =>
    obtain ⟨inner, hi, rfl⟩ := divided.exists_inner
    have hw : ¬ ((Text.split ',' inner).length = 3 ∨ (Text.split ',' inner).length = 4) := by
      simpa using wrong
    simp [color, hi, colorChannels, hw, Defect.inColor]
  | part divided right read unread =>
    obtain ⟨inner, hi, hs⟩ := divided.exists_inner
    have hr : (Text.split ',' inner).length = 3 ∨ (Text.split ',' inner).length = 4 := by
      simpa [hs] using right
    simp [color, hi, colorChannels, hr, numbers_of_unread hs read unread, Defect.inColor]

/-- A reader of tuples: it gives what the numbers of a text denote, or the reason that belongs to
its first defect. -/
structure Reads {α : Type} (sizes : List Nat) (Denotes : List Binary32 → α → Prop)
    (reason : Defect → Misread) (raw : String) (answer : Except Misread α) : Prop where
  denoted : ∀ numbers, numbers.length ∈ sizes → ∃ a, Denotes numbers a
  numbers : ∀ numbers a, Spells raw numbers → Denotes numbers a → answer = .ok a
  defect : ∀ defect, FirstDefect sizes raw defect → answer = .error (reason defect)

namespace Reads

variable {α : Type} {Denotes : List Binary32 → α → Prop} {reason : Defect → Misread}
  {answer : Except Misread α}

/-- A reader gives one of the two on every text. -/
theorem answered (h : Reads sizes Denotes reason raw answer) :
    (∃ numbers a, Spells raw numbers ∧ Denotes numbers a ∧ answer = .ok a) ∨
      ∃ defect, FirstDefect sizes raw defect ∧ answer = .error (reason defect) := by
  rcases spells_or_defect sizes raw with ⟨numbers, hs, hl⟩ | ⟨defect, hd⟩
  · obtain ⟨a, ha⟩ := h.denoted numbers hl
    exact .inl ⟨numbers, a, hs, ha, h.numbers numbers a hs ha⟩
  · exact .inr ⟨defect, hd, h.defect defect hd⟩

section Checked

variable {kind : Kind RecordType} {make : α → Value RecordType}

theorem checked_eq_ok_iff (h : Reads sizes Denotes reason raw answer) {value : Value RecordType} :
    kind.checked raw make answer = .ok value ↔
      ∃ numbers a, Spells raw numbers ∧ Denotes numbers a ∧ value = make a := by
  constructor
  · intro hc
    rcases h.answered with ⟨numbers, a, hs, hd, rfl⟩ | ⟨defect, hd, rfl⟩
    · exact ⟨numbers, a, hs, hd, (Except.ok.inj hc).symm⟩
    · contradiction
  · rintro ⟨numbers, a, hs, hd, rfl⟩
    rw [h.numbers numbers a hs hd]
    rfl

theorem checked_eq_error_iff (h : Reads sizes Denotes reason raw answer) {fault : Fault} :
    kind.checked raw make answer = .error fault ↔
      ∃ defect, FirstDefect sizes raw defect ∧ fault = .invalidValue kind raw (reason defect) := by
  constructor
  · intro hc
    rcases h.answered with ⟨numbers, a, hs, hd, rfl⟩ | ⟨defect, hd, rfl⟩
    · contradiction
    · exact ⟨defect, hd, (Except.error.inj hc).symm⟩
  · rintro ⟨defect, hd, rfl⟩
    rw [h.defect defect hd]
    rfl

end Checked

end Reads

theorem reads_vector (dim : Dim) (raw : String) :
    Reads [dim.size] (fun numbers components => Vector.toList components = numbers)
      (Defect.inVector dim) raw (vector dim raw) where
  denoted := fun numbers hl => ⟨⟨numbers.toArray, List.mem_singleton.mp hl⟩, rfl⟩
  numbers := fun _ _ hs hd => vector_of_numbers (hd ▸ hs)
  defect := fun _ => vector_of_defect

theorem reads_color (raw : String) : Reads [3, 4] Channels Defect.inColor raw (color raw) where
  denoted := fun numbers hl => by
    match numbers, hl with
    | [r, g, b], _ => exact ⟨_, .solid r g b⟩
    | [r, g, b, a], _ => exact ⟨_, .given r g b a⟩
  numbers := fun _ _ => color_of_numbers
  defect := fun _ => color_of_defect

end Literal

/-- A vector is decoded from a tuple of as many numbers as it has components, and a colour from one
of three or four numbers, in their order. Every other text is refused for the first check that it
does not pass. -/
theorem Kind.decodes_tuples (raw : String) :
    (∀ dim value, (vector dim).decode .overwrite raw = .ok value ↔
      ∃ numbers : Vector Binary32 dim.size,
        Literal.Spells raw numbers.toList ∧ value = .vector dim numbers) ∧
    (∀ value, color.decode .overwrite raw = .ok value ↔
      ∃ numbers channels, Literal.Spells raw numbers ∧ Literal.Channels numbers channels ∧
        value = .color channels) ∧
    (∀ dim fault, (vector dim).decode .overwrite raw = .error fault ↔
      ∃ defect, Literal.FirstDefect [dim.size] raw defect ∧
        fault = .invalidValue (.vector dim) raw (defect.inVector dim)) ∧
    ∀ fault, color.decode .overwrite raw = .error fault ↔
      ∃ defect, Literal.FirstDefect [3, 4] raw defect ∧
        fault = .invalidValue .color raw defect.inColor := by
  have hv (dim : Dim) : (vector dim).decode .overwrite raw =
      (vector dim).checked raw (.vector dim) (Literal.vector dim raw) := rfl
  have hc : color.decode .overwrite raw = color.checked raw .color (Literal.color raw) := rfl
  refine ⟨fun dim value => ?_, fun value => ?_, fun dim fault => ?_, fun fault => ?_⟩
  · rw [hv, (Literal.reads_vector dim raw).checked_eq_ok_iff]
    constructor
    · rintro ⟨_, numbers, hs, rfl, hm⟩
      exact ⟨numbers, hs, hm⟩
    · rintro ⟨numbers, hs, hm⟩
      exact ⟨_, numbers, hs, rfl, hm⟩
  · rw [hc, (Literal.reads_color raw).checked_eq_ok_iff]
  · rw [hv, (Literal.reads_vector dim raw).checked_eq_error_iff]
  · rw [hc, (Literal.reads_color raw).checked_eq_error_iff]

/-- A comma too many leaves an empty part, which is no number, if the number of parts is right. -/
example : Literal.vector .two "(1,)" = .error (.badComponent 2) ∧
    Literal.color "(1, 0 ,, red)" = .error (.color (.badChannel 3 "")) ∧
    Literal.vector .three "(x,1)" = .error (.componentCount 3 2) ∧
    Literal.color "(" = .error .missingParentheses := by
  exact ⟨rfl, rfl, rfl, rfl⟩

end FieldPatch
