import FieldPatch.Path.FieldPath
import FieldPatch.Proofs.Number.Written
import FieldPatch.Proofs.Text.Parts
import FieldPatch.Value.Location

namespace FieldPatch

namespace Segment

/-- A segment that names something: it is not empty, stands in one piece, and is no marker run. -/
structure Plain (segment : String) : Prop where
  filled : segment ≠ ""
  whole : separator ∉ segment.toList
  unmarked : isMarker segment = false

theorem plain_of_numeral {segment : String} (hf : segment.toList ≠ [])
    (hc : ∀ c ∈ segment.toList, Integer.isNumeral c) : Plain segment := by
  refine ⟨fun he => hf (by simp [he]), fun hs => absurd (hc _ hs) (by decide), ?_⟩
  obtain ⟨c, hm⟩ := List.exists_mem_of_ne_nil _ hf
  rw [isMarker, Bool.and_eq_false_iff, List.all_eq_false]
  refine .inr ⟨c, hm, fun he => ?_⟩
  have := hc c hm
  rw [beq_iff_eq.mp he] at this
  contradiction

theorem plain_repr (n : Int) : Plain n.repr :=
  plain_of_numeral (Integer.repr_ne_nil n) fun _ => Integer.isNumeral_of_mem_repr

theorem join_cons_join {segments : List String} (h : segments ≠ []) (rest : List String) :
    join (join segments :: rest) = join (segments ++ rest) := by
  cases rest with
  | nil => simp [join, Text.join]
  | cons next rest =>
    unfold join Text.join
    rw [String.intercalate_cons_cons, String.intercalate_append_of_ne_nil h (List.cons_ne_nil _ _)]

theorem join_ne_empty {segments : List String} (hs : segments ≠ [])
    (hp : ∀ s ∈ segments, Plain s) : join segments ≠ "" := by
  intro he
  have hj := Text.split_join separator hs fun s hm => (hp s hm).whole
  have hn : split "" = [""] := by decide +kernel
  have hm : "" ∈ segments := by
    rw [← hj]
    change "" ∈ split (join segments)
    simp [he, hn]
  exact (hp _ hm).filled rfl

end Segment

namespace PathFault

theorem plain_of_firstIn? {position : Nat} {segments : List String} (hp : 1 < position)
    (hw : ∀ s ∈ segments, Segment.separator ∉ s.toList)
    (h : firstIn? position segments = none) : ∀ s ∈ segments, Segment.Plain s := by
  induction segments generalizing position with
  | nil => simp
  | cons first rest ih =>
    simp only [firstIn?, hp, decide_true, Bool.true_and] at h
    split at h
    · contradiction
    · rename_i hf
      split at h
      · contradiction
      · rename_i hm
        intro s hs
        rcases List.mem_cons.mp hs with rfl | hs
        · exact ⟨fun he => hf (by simp [he]), hw _ List.mem_cons_self, by simpa using hm⟩
        · exact ih (by omega) (fun t ht => hw t (List.mem_cons_of_mem _ ht)) h s hs

theorem firstIn?_of_plain {position : Nat} {segments : List String}
    (h : ∀ s ∈ segments, Segment.Plain s) : firstIn? position segments = none := by
  induction segments generalizing position with
  | nil => rfl
  | cons first rest ih =>
    have hf := h first List.mem_cons_self
    simp only [firstIn?, String.isEmpty_iff, hf.filled, hf.unmarked, if_false, Bool.and_false,
      Bool.false_eq_true]
    exact ih fun s hs => h s (List.mem_cons_of_mem _ hs)

end PathFault

namespace FieldPath

/-- A path that leads somewhere: by plain segments, or to a context at least. -/
structure Plain (path : FieldPath) : Prop where
  segments : ∀ s ∈ path.segments, Segment.Plain s
  starts : path.segments = [] → path.usesContext = true

theorem plain_ofSegments {segments : List String} (hn : segments ≠ [])
    (hw : ∀ s ∈ segments, Segment.separator ∉ s.toList)
    (h : PathFault.firstIn? 1 segments = none) : (ofSegments segments).Plain := by
  cases segments with
  | nil => contradiction
  | cons first rest =>
    simp only [PathFault.firstIn?, Nat.lt_irrefl, decide_false, Bool.false_and, Bool.false_eq_true,
      if_false] at h
    split at h
    · contradiction
    · rename_i hf
      have hr := PathFault.plain_of_firstIn? (by omega)
        (fun s hs => hw s (List.mem_cons_of_mem _ hs)) h
      by_cases hm : Segment.isMarker first = true
      · have hl : 0 < first.length := by simpa [Nat.pos_iff_ne_zero] using hf
        simp only [ofSegments, Segment.markerDepth?, if_pos hm]
        exact ⟨hr, fun _ => by simpa [usesContext] using hl⟩
      · have hp : Segment.Plain first :=
          ⟨fun he => hf (by simp [he]), hw _ List.mem_cons_self, by simpa using hm⟩
        simp only [ofSegments, Segment.markerDepth?, if_neg hm]
        exact ⟨List.forall_mem_cons.mpr ⟨hp, hr⟩, fun he => absurd he (List.cons_ne_nil _ _)⟩

theorem plain_of_parse {text : String} {path : FieldPath} (h : parse text = .ok path) :
    path.Plain := by
  simp only [parse] at h
  split at h
  · contradiction
  · split at h
    · contradiction
    · rename_i hn
      injection h with h
      subst h
      rw [PathFault.ofSegments?] at hn
      split at hn
      · contradiction
      · split at hn
        · contradiction
        · exact plain_ofSegments (Text.split_ne_nil _ _)
            (fun s hs => Text.not_mem_of_mem_split hs) hn

end FieldPath

namespace Location

/-- A path can name every step of the location. -/
def Plain (location : Location) : Prop := ∀ s ∈ location.segments, Segment.Plain s

theorem plain_nil : Plain [] := by simp [Plain, segments]

theorem plain_append {l m : Location} : Plain (l ++ m) ↔ Plain l ∧ Plain m := by
  simp only [Plain, segments, List.map_append, List.mem_append]
  grind

theorem plain_cons {step : Step} {rest : Location} :
    Plain (step :: rest) ↔ Segment.Plain step.text ∧ Plain rest := by
  simp [Plain, segments]

theorem Plain.child {l : Location} {step : Step} (h : l.Plain) (hs : Segment.Plain step.text) :
    (l.child step).Plain :=
  plain_append.mpr ⟨h, plain_cons.mpr ⟨hs, plain_nil⟩⟩

end Location

theorem Step.plain_index (i : Nat) : Segment.Plain (Step.index i).text :=
  Segment.plain_repr i

end FieldPatch
