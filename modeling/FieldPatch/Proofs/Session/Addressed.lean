import FieldPatch.Proofs.Edit.Marked
import FieldPatch.Proofs.Path.Grammar
import FieldPatch.Proofs.Schema.Shaped
import FieldPatch.Proofs.Session.Stage

namespace FieldPatch

/-- A segment of a path can name the step. -/
def Step.Nameable : Step → Prop
  | .field name | .key (.str name) => Segment.Plain name
  | .index i => i < 2 ^ 31
  | .key (.int _) => True

/-- A path from the root can name every step of the location. -/
structure Location.Nameable (l : Location) : Prop where
  below : l ≠ []
  short : l.length ≤ PathFault.maxSegments
  steps : ∀ step ∈ l, step.Nameable

theorem Step.Nameable.plain {step : Step} (h : step.Nameable) : Segment.Plain step.text := by
  cases step with
  | field name => exact h
  | index i => exact Step.plain_index i
  | key key =>
    cases key with
    | str text => exact h
    | int number => exact Segment.plain_repr _

theorem Step.Nameable.indexable {step : Step} (h : step.Nameable) : step.Indexable := by
  cases step with
  | index i => exact h
  | field name => trivial
  | key key => trivial

namespace Location.Nameable

variable {l : Location}

theorem indexable (h : l.Nameable) : l.Indexable := fun step hm => (h.steps step hm).indexable

theorem plain (h : l.Nameable) : l.Plain := by
  intro segment hm
  obtain ⟨step, hs, rfl⟩ := List.mem_map.mp hm
  exact (h.steps step hs).plain

theorem segments_ne_nil (h : l.Nameable) : l.segments ≠ [] := by
  rw [segments, Ne, List.map_eq_nil_iff]
  exact h.below

theorem text_ne_empty (h : l.Nameable) : l.text ≠ "" :=
  Segment.join_ne_empty h.segments_ne_nil h.plain

/-- The text of a location is read as the path of its segments. -/
theorem parse_text (h : l.Nameable) : FieldPath.parse l.text = .ok ⟨0, l.segments⟩ := by
  have hl : l.segments.length ≤ PathFault.maxSegments := by
    rw [segments, List.length_map]
    exact h.short
  exact FieldPath.parse_join h.segments_ne_nil h.plain hl

end Location.Nameable

namespace Stage

/-- The edit comes to the location, with the kind of the slot there. A slot that holds slots is the
newest context then, and any other one is refused. -/
structure MarksAt (stage : Stage) (l : Location) (kind : Kind RecordType) : Prop where
  last : ∃ p, stage.turn.session.last = some p ∧ p.location = l ∧ p.targetKind = some kind
  structural : kind.isStructural = true → stage.turn.outcome = .contextSet ∧
    ∃ segment, stage.turn.session.contexts.top? = some ⟨l, kind, segment⟩
  terminal : kind.isStructural = false →
    stage.turn.outcome = .faulted (.contextOnTerminal kind)

variable {stage : Stage} {l : Location}

/-- Setting a context at the text of a location comes to that location. -/
theorem marksAt_of_reaches {slot : Slot} (hr : stage.target.value.Reaches l slot)
    (hl : l.Nameable) (ha : stage.Attempted) (hp : stage.request.path = l.text)
    (ho : stage.op = .setContext) : stage.MarksAt l slot.kind := by
  obtain ⟨d, hd, hs, hk⟩ :=
    FieldPath.destination_of_reaches stage.contexts hr hl.below hl.indexable
  have hn : FieldPath.parse stage.request.path = .ok ⟨0, l.segments⟩ := hp ▸ hl.parse_text
  have hv : (stage.target.value.at? d.slot).isSome = true := by rw [hs, hr.at?]; rfl
  obtain ⟨notes, he⟩ := Session.edit_given ha.1 ha.2
  let run := stage.session.runEdit stage.request stage.target
  have ht : stage.turn = ⟨run.1, run.2.root,
      (stage.session.inFile (.ofEdit stage.request stage.target.id)).afterRun run, notes⟩ := he
  have hm : Editing.Marks d stage.contexts ⟨0, l.segments⟩ run := Editing.run_marks hn hd hv ho
  obtain ⟨hloc, hkind, hstruct, hterm⟩ := hm
  rw [hs] at hloc
  rw [hk] at hkind
  rw [hs, hk] at hstruct
  rw [hk] at hterm
  constructor
  case last => exact ⟨run.2.progress, by rw [ht]; rfl, hloc, hkind⟩
  case structural =>
    intro h
    obtain ⟨hout, segment, hc⟩ := hstruct h
    refine ⟨by rw [ht, hout], segment, ?_⟩
    have hb : stage.turn.session.contexts = run.2.contexts := by rw [ht]; rfl
    -- The path starts at the root, so the slot opens a chain of its own.
    rw [hb, hc]
    rfl
  case terminal =>
    intro h
    rw [ht, hterm h]

/-- In a config laid out as its kinds say, whatever stands at a location is addressed by the text of
the location, from any state of a session that does not skip the edit. -/
theorem location_addressed {type : RecordType} {fields : List (String × Value RecordType)}
    {value : Value RecordType} (hv : stage.target.value = .record type fields)
    (hs : Shaped stage.target.value (.record type)) (hl : l.Nameable)
    (ha : stage.target.value.at? l = some value)
    (hf : ¬ stage.session.Latched (.ofEdit stage.request stage.target.id))
    (hp : stage.request.path = l.text) (hm : stage.request.value = "!^") :
    ∃ kind, stage.target.value.Reaches l ⟨kind, value⟩ ∧ stage.MarksAt l kind := by
  obtain ⟨kind, hr⟩ := hs.reaches ha
  have hr : stage.target.value.Reaches l ⟨kind, value⟩ := by
    rw [hv] at hr ⊢
    exact hr
  have ho : stage.op = .setContext := by
    rw [op, hm]
    decide +kernel
  have hn : Session.isVoid stage.request = false := by
    rw [Session.isVoid, hp, hm]
    simp [hl.text_ne_empty]
  exact ⟨kind, hr, marksAt_of_reaches hr hl ⟨hf, hn⟩ hp ho⟩

end Stage

/-- A part of a ship, with a number of points to lose. -/
def RecordType.part : RecordType :=
  ((named "Part").implement "IPart").declare "points" ⟨.float, none⟩

/-- A ship with lists of parts under numbers. The list that it starts with has an empty place. -/
def RecordType.ship : RecordType :=
  (named "Ship").declare "parts"
    ⟨.map .int (.list (.interface "IPart")), some (.map [(.int (-3), .list [.null, part.fresh])])⟩

theorem RecordType.ship_shaped : Shaped RecordType.ship.fresh (.record RecordType.ship) := by
  have hp : Shaped part.fresh (.interface "IPart") := by
    refine .fresh _ fun name declared value hd hi => ?_
    have hd : (if "points" = name then some (⟨.float, none⟩ : Field RecordType) else none) =
      some declared := hd
    split at hd <;> cases hd
    contradiction
  refine .fresh _ fun name declared value hd hi => ?_
  have hd : (if "parts" = name then some (⟨.map .int (.list (.interface "IPart")),
    some (.map [(.int (-3), .list [.null, part.fresh])])⟩ : Field RecordType) else none) =
      some declared := hd
  split at hd <;> cases hd
  cases hi
  refine .map (by simp [Key.isOf]) fun entry he => ?_
  obtain rfl := List.mem_singleton.mp he
  refine .list fun item hm => ?_
  rw [List.mem_cons, List.mem_singleton] at hm
  rcases hm with rfl | rfl
  · exact .zero (.interface "IPart")
  · exact hp

namespace Stage

/-- A part is a context by its path, though another file was left with a fault and a context. -/
theorem part_addressed :
    let s : Session :=
      { settings := {}, tags := [], contexts := ⟨[⟨[.field "hull"], .list .int, "hull"⟩]⟩,
        lastFile := some (.key "hull.toml"), faulted := true }
    let target : Object := ⟨.loose 0, RecordType.ship.fresh⟩
    let stage : Stage := ⟨s, target, { path := "parts.-3.1", value := "!^" }⟩
    let l : Location := [.field "parts", .key (.int (-3)), .index 1]
    l.Nameable ∧ s.Latched (.key "hull.toml") ∧ target.value.at? l = some RecordType.part.fresh ∧
      ∃ kind, target.value.Reaches l ⟨kind, RecordType.part.fresh⟩ ∧ stage.MarksAt l kind := by
  intro s target stage l
  have hl : l.Nameable := by
    refine ⟨by simp [l], by decide, ?_⟩
    simp only [l, List.forall_mem_cons, Step.Nameable]
    exact ⟨⟨by decide, by decide, by decide⟩, trivial, by decide, by simp⟩
  have ha : target.value.at? l = some RecordType.part.fresh := by rfl
  have hf : ¬ s.Latched (.ofEdit stage.request target.id) := by
    rintro ⟨hf, -⟩
    exact absurd hf (by decide)
  have hp : stage.request.path = l.text := by decide +kernel
  have hm := location_addressed rfl RecordType.ship_shaped hl ha hf hp rfl
  exact ⟨hl, ⟨rfl, rfl, by decide⟩, ha, hm⟩

end Stage

end FieldPatch
