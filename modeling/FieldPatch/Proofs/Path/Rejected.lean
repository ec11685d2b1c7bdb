import FieldPatch.Proofs.Path.Grammar

namespace FieldPatch

namespace Segment

/-- The segment may not stand at the position: it is empty, or a marker run and not in first
place. -/
def WrongAt (position : Nat) (segment : String) : Prop :=
  segment = "" ∨ (1 < position ∧ segment ≠ "" ∧ ∀ c ∈ segment.toList, c = marker)

/-- The segment at a position, where the first one of all stands at `first`. -/
def StandsAt (first : Nat) (segments : List String) (position : Nat) (segment : String) : Prop :=
  first ≤ position ∧ segments[position - first]? = some segment

/-- The first segment that may not stand at its position. -/
structure FirstWrong (first : Nat) (segments : List String) (position : Nat) (segment : String) :
    Prop where
  stands : StandsAt first segments position segment
  wrong : WrongAt position segment
  earlier : ∀ p < position, ∀ other, StandsAt first segments p other → ¬ WrongAt p other

variable {first position : Nat} {segment : String} {segments : List String}

theorem isMarker_iff : isMarker segment = true ↔
    segment ≠ "" ∧ ∀ c ∈ segment.toList, c = marker := by
  simp [isMarker]

/-- The segments of a list are its head, at the first position, and those of its tail behind it. -/
theorem standsAt_cons {head : String} {rest : List String} :
    StandsAt first (head :: rest) position segment ↔
      (position = first ∧ segment = head) ∨ StandsAt (first + 1) rest position segment := by
  rw [StandsAt, StandsAt]
  rcases Nat.lt_trichotomy position first with hl | rfl | hl
  · constructor
    · rintro ⟨hb, -⟩
      omega
    · rintro (⟨he, -⟩ | ⟨hb, -⟩)
      · omega
      · omega
  · rw [Nat.sub_self, List.getElem?_cons_zero]
    constructor
    · rintro ⟨-, hs⟩
      exact .inl ⟨rfl, (Option.some.inj hs).symm⟩
    · rintro (⟨-, rfl⟩ | ⟨hb, -⟩)
      · exact ⟨Nat.le_refl _, rfl⟩
      · omega
  · rw [show position - first = (position - (first + 1)) + 1 by omega, List.getElem?_cons_succ]
    constructor
    · rintro ⟨-, hs⟩
      exact .inr ⟨hl, hs⟩
    · rintro (⟨he, -⟩ | ⟨-, hs⟩)
      · omega
      · exact ⟨Nat.le_of_lt hl, hs⟩

theorem FirstWrong.head (h : WrongAt first segment) (rest : List String) :
    FirstWrong first (segment :: rest) first segment where
  stands := standsAt_cons.mpr (.inl ⟨rfl, rfl⟩)
  wrong := h
  earlier := fun _ hl _ hs => absurd hs.1 (Nat.not_le.mpr hl)

theorem FirstWrong.cons {other : String} (hn : ¬ WrongAt first other)
    (h : FirstWrong (first + 1) segments position segment) :
    FirstWrong first (other :: segments) position segment where
  stands := standsAt_cons.mpr (.inr h.stands)
  wrong := h.wrong
  earlier := by
    intro p hl s hs
    rcases standsAt_cons.mp hs with ⟨rfl, rfl⟩ | hs
    · exact hn
    · exact h.earlier p hl s hs

/-- There is only one first wrong segment. -/
theorem FirstWrong.unique {position' : Nat} {segment' : String}
    (h : FirstWrong first segments position segment)
    (h' : FirstWrong first segments position' segment') :
    position' = position ∧ segment' = segment := by
  have hp : position' = position := by
    rcases Nat.lt_trichotomy position' position with hl | he | hl
    · exact absurd h'.wrong (h.earlier position' hl segment' h'.stands)
    · exact he
    · exact absurd h.wrong (h'.earlier position hl segment h.stands)
  subst hp
  exact ⟨rfl, Option.some.inj (h'.stands.2.symm.trans h.stands.2)⟩

end Segment

namespace PathFault

open Segment (WrongAt StandsAt FirstWrong)

/-- What is found in a list of segments, where the first one stands at `first`. -/
inductive Finding (first : Nat) (segments : List String) : Option PathFault → Prop
  | emptySegment {position : Nat} (wrong : FirstWrong first segments position "") :
      Finding first segments (some (.emptySegment position))
  | misplacedMarker {position : Nat} {segment : String} (filled : segment ≠ "")
      (wrong : FirstWrong first segments position segment) :
      Finding first segments (some (.misplacedMarker segment position))
  | fine (fine : ∀ position segment, StandsAt first segments position segment →
      ¬ WrongAt position segment) : Finding first segments none

theorem firstIn?_finding (first : Nat) (segments : List String) :
    Finding first segments (firstIn? first segments) := by
  induction segments generalizing first with
  | nil =>
    refine .fine fun position segment hs => ?_
    have hn : ([] : List String)[position - first]? = some segment := hs.2
    rw [List.getElem?_nil] at hn
    contradiction
  | cons segment rest ih =>
    have hm : (decide (1 < first) && Segment.isMarker segment) = true ↔
        1 < first ∧ segment ≠ "" ∧ ∀ c ∈ segment.toList, c = Segment.marker := by
      rw [Bool.and_eq_true, decide_eq_true_iff, Segment.isMarker_iff]
    rw [firstIn?]
    by_cases he : segment = ""
    · subst he
      exact .emptySegment (.head (.inl rfl) rest)
    · rw [if_neg (by simpa using he)]
      split
      · rename_i hw
        exact .misplacedMarker he (.head (.inr (hm.mp hw)) rest)
      · rename_i hw
        have hn : ¬ WrongAt first segment := not_or.mpr ⟨he, fun hc => hw (hm.mpr hc)⟩
        have hr := ih (first + 1)
        generalize firstIn? (first + 1) rest = found at hr
        cases hr with
        | emptySegment wrong => exact .emptySegment (wrong.cons hn)
        | misplacedMarker filled wrong => exact .misplacedMarker filled (wrong.cons hn)
        | fine fine =>
          refine .fine fun position other hs => ?_
          rcases Segment.standsAt_cons.mp hs with ⟨rfl, rfl⟩ | hs
          · exact hn
          · exact fine position other hs

end PathFault

namespace FieldPath

open Segment (WrongAt StandsAt FirstWrong)

/-- The text is not rejected as a whole, so that its segments are judged. -/
def Judged (text : String) : Prop := text ≠ "" ∧ (Segment.split text).length ≤ 256

/-- How a text is judged. Positions of segments count from one. -/
inductive Verdict (text : String) : Except PathFault FieldPath → Prop
  | empty (blank : text = "") : Verdict text (.error .empty)
  | tooLong (long : 256 < (Segment.split text).length) :
      Verdict text (.error (.tooLong (Segment.split text).length))
  | emptySegment {position : Nat} (judged : Judged text)
      (wrong : FirstWrong 1 (Segment.split text) position "") :
      Verdict text (.error (.emptySegment position))
  | misplacedMarker {position : Nat} {segment : String} (judged : Judged text)
      (filled : segment ≠ "") (wrong : FirstWrong 1 (Segment.split text) position segment) :
      Verdict text (.error (.misplacedMarker segment position))
  | path (judged : Judged text) (fine : ∀ position segment,
      StandsAt 1 (Segment.split text) position segment → ¬ WrongAt position segment) :
      Verdict text (.ok (ofSegments (Segment.split text)))

variable {text : String}

theorem parse_verdict (text : String) : Verdict text (parse text) := by
  rw [parse]
  by_cases he : text = ""
  · rw [if_pos (by simpa using he)]
    exact .empty he
  · have hn : Segment.split text ≠ [] := Text.split_ne_nil _ _
    rw [if_neg (by simpa using he)]
    dsimp only
    rw [PathFault.ofSegments?, if_neg (by simpa using hn)]
    by_cases hl : PathFault.maxSegments < (Segment.split text).length
    · rw [if_pos hl]
      exact .tooLong hl
    · rw [if_neg hl]
      have hj : Judged text := ⟨he, Nat.not_lt.mp hl⟩
      have hf := PathFault.firstIn?_finding 1 (Segment.split text)
      generalize PathFault.firstIn? 1 (Segment.split text) = found at hf
      cases hf with
      | emptySegment wrong => exact .emptySegment hj wrong
      | misplacedMarker filled wrong => exact .misplacedMarker hj filled wrong
      | fine fine => exact .path hj fine

theorem not_long_of_empty (h : text = "") : ¬ 256 < (Segment.split text).length := by
  have hs : Segment.split "" = [""] := by decide +kernel
  rw [h, hs]
  decide

/-- A text is judged in one way only. -/
theorem Verdict.unique {r r' : Except PathFault FieldPath} (h : Verdict text r)
    (h' : Verdict text r') : r' = r := by
  cases h with
  | empty blank =>
    cases h' with
    | empty => rfl
    | tooLong long => exact absurd long (not_long_of_empty blank)
    | emptySegment judged => exact absurd blank judged.1
    | misplacedMarker judged => exact absurd blank judged.1
    | path judged => exact absurd blank judged.1
  | tooLong long =>
    cases h' with
    | empty blank => exact absurd long (not_long_of_empty blank)
    | tooLong => rfl
    | emptySegment judged => exact absurd long (Nat.not_lt.mpr judged.2)
    | misplacedMarker judged => exact absurd long (Nat.not_lt.mpr judged.2)
    | path judged => exact absurd long (Nat.not_lt.mpr judged.2)
  | emptySegment judged wrong =>
    cases h' with
    | empty blank => exact absurd blank judged.1
    | tooLong long => exact absurd long (Nat.not_lt.mpr judged.2)
    | emptySegment _ other => rw [(wrong.unique other).1]
    | misplacedMarker _ filled other => exact absurd (wrong.unique other).2 filled
    | path _ fine => exact absurd wrong.wrong (fine _ _ wrong.stands)
  | misplacedMarker judged filled wrong =>
    cases h' with
    | empty blank => exact absurd blank judged.1
    | tooLong long => exact absurd long (Nat.not_lt.mpr judged.2)
    | emptySegment _ other => exact absurd (other.unique wrong).2 filled
    | misplacedMarker _ _ other =>
      obtain ⟨rfl, rfl⟩ := wrong.unique other
      rfl
    | path _ fine => exact absurd wrong.wrong (fine _ _ wrong.stands)
  | path judged fine =>
    cases h' with
    | empty blank => exact absurd blank judged.1
    | tooLong long => exact absurd long (Nat.not_lt.mpr judged.2)
    | emptySegment _ wrong => exact absurd wrong.wrong (fine _ _ wrong.stands)
    | misplacedMarker _ _ wrong => exact absurd wrong.wrong (fine _ _ wrong.stands)
    | path => rfl

theorem parse_eq_iff {r : Except PathFault FieldPath} : parse text = r ↔ Verdict text r :=
  ⟨fun h => h ▸ parse_verdict text, fun h => h.unique (parse_verdict text)⟩

/-- A text is rejected as empty exactly if it is, and as too long exactly if it has more than 256
segments, whatever else is wrong with them. Any other text is rejected for the first segment that
may not stand at its position, as empty or as a misplaced marker run, and is a path exactly if there
is no such segment. -/
theorem rejects_exactly (text : String) :
    let segments := Segment.split text
    let judged := text ≠ "" ∧ segments.length ≤ 256
    (parse text = .error .empty ↔ text = "") ∧
      (∀ count, parse text = .error (.tooLong count) ↔ segments.length = count ∧ 256 < count) ∧
      (∀ position, parse text = .error (.emptySegment position) ↔
        judged ∧ FirstWrong 1 segments position "") ∧
      (∀ segment position, parse text = .error (.misplacedMarker segment position) ↔
        judged ∧ segment ≠ "" ∧ FirstWrong 1 segments position segment) ∧
      ((∃ path, parse text = .ok path) ↔
        judged ∧ ¬ ∃ position segment, FirstWrong 1 segments position segment) := by
  intro segments judged
  refine ⟨?_, fun count => ?_, fun position => ?_, fun segment position => ?_, ?_⟩
  · rw [parse_eq_iff]
    constructor
    · rintro ⟨⟩
      assumption
    · exact .empty
  · rw [parse_eq_iff]
    constructor
    · rintro ⟨⟩
      exact ⟨rfl, by assumption⟩
    · rintro ⟨rfl, long⟩
      exact .tooLong long
  · rw [parse_eq_iff]
    constructor
    · rintro ⟨⟩
      exact ⟨by assumption, by assumption⟩
    · rintro ⟨hj, wrong⟩
      exact .emptySegment hj wrong
  · rw [parse_eq_iff]
    constructor
    · rintro ⟨⟩
      exact ⟨by assumption, by assumption, by assumption⟩
    · rintro ⟨hj, filled, wrong⟩
      exact .misplacedMarker hj filled wrong
  · constructor
    · rintro ⟨path, h⟩
      have hv := parse_eq_iff.mp h
      cases hv with
      | path hj fine => exact ⟨hj, fun ⟨_, _, wrong⟩ => fine _ _ wrong.stands wrong.wrong⟩
    · rintro ⟨hj, hn⟩
      have hv := parse_verdict text
      generalize parse text = r at hv
      cases hv with
      | empty blank => exact absurd blank hj.1
      | tooLong long => exact absurd long (Nat.not_lt.mpr hj.2)
      | emptySegment _ wrong => exact absurd ⟨_, _, wrong⟩ hn
      | misplacedMarker _ _ wrong => exact absurd ⟨_, _, wrong⟩ hn
      | path => exact ⟨_, rfl⟩

end FieldPath

end FieldPatch
