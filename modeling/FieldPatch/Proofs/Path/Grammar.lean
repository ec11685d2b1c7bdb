import FieldPatch.Proofs.Path.Plain

namespace FieldPatch

namespace Segment

theorem isMarker_markerRun {n : Nat} (h : 0 < n) : isMarker (markerRun n) = true := by
  simpa [isMarker, markerRun] using Nat.pos_iff_ne_zero.mp h

/-- A marker run holds nothing but as many markers as it is long. -/
theorem markerRun_of_isMarker {segment : String} (h : isMarker segment = true) :
    0 < segment.length ∧ markerRun segment.length = segment := by
  simp only [isMarker, Bool.and_eq_true, Bool.not_eq_true', List.all_eq_true, beq_iff_eq] at h
  obtain ⟨hf, hm⟩ := h
  constructor
  · simpa [Nat.pos_iff_ne_zero] using hf
  · apply String.toList_injective
    rw [markerRun, String.toList_ofList, ← String.length_toList]
    exact (List.eq_replicate_of_mem hm).symm

theorem markerDepth?_markerRun {n : Nat} (h : 0 < n) : markerDepth? (markerRun n) = some n := by
  rw [markerDepth?, if_pos (isMarker_markerRun h)]
  simp [markerRun]

theorem separator_not_mem_markerRun (n : Nat) : separator ∉ (markerRun n).toList := by
  rw [markerRun, String.toList_ofList]
  intro h
  have he : separator = marker := List.eq_of_mem_replicate h
  contradiction

end Segment

namespace FieldPath

/-- The number of segments that the path is written with, the marker run counted as one. -/
def size (path : FieldPath) : Nat := path.segments.length + if path.usesContext then 1 else 0

/-- A path that a text can write: it leads somewhere and is not too long. -/
structure WellFormed (path : FieldPath) : Prop where
  plain : path.Plain
  short : path.size ≤ PathFault.maxSegments

variable {path : FieldPath}

theorem length_written (path : FieldPath) : path.written.length = path.size := by
  rw [written, size]
  split
  · exact List.length_cons
  · rfl

/-- The segments that make up a path are the ones that it is written with. -/
theorem written_ofSegments (segments : List String) : (ofSegments segments).written = segments := by
  cases segments with
  | nil => rfl
  | cons first rest =>
    simp only [ofSegments, Segment.markerDepth?]
    by_cases hm : Segment.isMarker first = true
    · obtain ⟨hl, hr⟩ := Segment.markerRun_of_isMarker hm
      simp [if_pos hm, written, usesContext, hl, hr]
    · simp [if_neg hm, written, usesContext]

namespace Plain

theorem written_ne_nil (h : path.Plain) : path.written ≠ [] := by
  rw [written]
  split
  · exact List.cons_ne_nil _ _
  · rename_i hu
    exact fun hn => hu (h.starts hn)

theorem whole_written (h : path.Plain) : ∀ s ∈ path.written, Segment.separator ∉ s.toList := by
  rw [written]
  split
  · intro s hs
    rcases List.mem_cons.mp hs with rfl | hs
    · exact Segment.separator_not_mem_markerRun _
    · exact (h.segments s hs).whole
  · exact fun s hs => (h.segments s hs).whole

/-- The segments that a path is written with are told apart again in its text. -/
theorem split_text (h : path.Plain) : Segment.split path.text = path.written :=
  Text.split_join _ h.written_ne_nil h.whole_written

/-- No segment is at fault: a marker run is written in first place only. -/
theorem firstIn?_written (h : path.Plain) : PathFault.firstIn? 1 path.written = none := by
  rw [written]
  split
  · rename_i hu
    have hm := Segment.isMarker_markerRun (of_decide_eq_true hu)
    have hf : (Segment.markerRun path.contextDepth).isEmpty = false := by
      rw [Segment.isMarker, Bool.and_eq_true, Bool.not_eq_true'] at hm
      exact hm.1
    simp only [PathFault.firstIn?, hf, Nat.lt_irrefl, decide_false, Bool.false_and,
      Bool.false_eq_true, if_false]
    exact PathFault.firstIn?_of_plain h.segments
  · exact PathFault.firstIn?_of_plain h.segments

theorem ofSegments_written (h : path.Plain) : ofSegments path.written = path := by
  obtain ⟨depth, segments⟩ := path
  rw [written]
  split
  · rename_i hu
    simp only [ofSegments, Segment.markerDepth?_markerRun (of_decide_eq_true hu)]
  · rename_i hu
    obtain rfl : depth = 0 := by simpa [usesContext] using hu
    cases segments with
    | nil => rfl
    | cons first rest =>
      have hf := (h.segments first List.mem_cons_self).unmarked
      simp [ofSegments, Segment.markerDepth?, hf]

theorem text_ne_empty (h : path.Plain) : path.text ≠ "" := by
  intro he
  have hn : Segment.split "" = [""] := by decide +kernel
  have hw := h.split_text
  have hf := h.firstIn?_written
  rw [he, hn] at hw
  rw [← hw] at hf
  contradiction

end Plain

/-- The text of a well-formed path is read as the path. -/
theorem WellFormed.parse_text (h : path.WellFormed) : parse path.text = .ok path := by
  have hn := h.plain.text_ne_empty
  have hf : PathFault.ofSegments? path.written = none := by
    have hl : ¬ PathFault.maxSegments < path.written.length := by
      rw [length_written]
      exact Nat.not_lt.mpr h.short
    rw [PathFault.ofSegments?, if_neg (by simpa using h.plain.written_ne_nil), if_neg hl]
    exact h.plain.firstIn?_written
  simp [parse, hn, h.plain.split_text, hf, h.plain.ofSegments_written]

/-- What is read as a path is the text of that path, which is well-formed. -/
theorem wellFormed_of_parse {text : String} (h : parse text = .ok path) :
    path.WellFormed ∧ path.text = text := by
  have hp := plain_of_parse h
  simp only [parse] at h
  split at h
  · contradiction
  · split at h
    · contradiction
    · rename_i hn
      injection h with h
      have hw : path.written = Segment.split text := h ▸ written_ofSegments _
      have hl : (Segment.split text).length ≤ PathFault.maxSegments := by
        rw [PathFault.ofSegments?] at hn
        split at hn
        · contradiction
        · split at hn
          · contradiction
          · rename_i hl
            exact Nat.not_lt.mp hl
      refine ⟨⟨hp, ?_⟩, ?_⟩
      · rw [← length_written, hw]
        exact hl
      · rw [FieldPath.text, hw]
        exact Text.join_split _ _

/-- A text is read as a path exactly if it writes that path and the path is well-formed. -/
theorem parse_eq_ok_iff {text : String} :
    parse text = .ok path ↔ path.WellFormed ∧ path.text = text := by
  constructor
  · exact wellFormed_of_parse
  · rintro ⟨hw, rfl⟩
    exact hw.parse_text

/-- Plain segments are read back from their text, as a path that starts at the root. -/
theorem parse_join {segments : List String} (hs : segments ≠ [])
    (hp : ∀ s ∈ segments, Segment.Plain s) (hl : segments.length ≤ PathFault.maxSegments) :
    parse (Segment.join segments) = .ok ⟨0, segments⟩ := by
  have hw : WellFormed ⟨0, segments⟩ := ⟨⟨hp, fun he => absurd he hs⟩, hl⟩
  exact hw.parse_text

/-- The texts that are read are those of well-formed paths. Each writes one well-formed path only,
which is what it is read as. -/
theorem reads_what_is_written (text : String) :
    ((∃ path, parse text = .ok path) ↔ ∃ path : FieldPath, path.WellFormed ∧ path.text = text) ∧
      (∀ path, parse text = .ok path ↔ path.WellFormed ∧ path.text = text) ∧
        ∀ path other : FieldPath, path.WellFormed → other.WellFormed → path.text = text →
          other.text = text → other = path := by
  have hr (path : FieldPath) : parse text = .ok path ↔ path.WellFormed ∧ path.text = text :=
    parse_eq_ok_iff
  refine ⟨exists_congr hr, hr, fun path other hp ho ht hu => ?_⟩
  have h : parse text = .ok path := (hr path).mpr ⟨hp, ht⟩
  have h' : parse text = .ok other := (hr other).mpr ⟨ho, hu⟩
  exact Except.ok.inj (h'.symm.trans h)

/-- A marker run in front counts as a segment, and it is nothing else than that. -/
example : (parse "^^.a^.b").toOption = some ⟨2, ["a^", "b"]⟩ ∧ (parse "a.^").toOption = none ∧
    (parse "^.").toOption = none := by
  decide +kernel

end FieldPath

end FieldPatch
