import FieldPatch.Proofs.Edit.Address

namespace FieldPatch

/-- Every list of the config is short enough for all its indices to be read. -/
def Value.Indexable (root : Value RecordType) : Prop :=
  ∀ l items, root.at? l = some (.list items) → items.length < 2 ^ 31

def Step.Indexable : Step → Prop
  | .index i => i < 2 ^ 31
  | _ => True

/-- Every index of the location can be read. -/
def Location.Indexable (l : Location) : Prop := ∀ step ∈ l, step.Indexable

variable {root : Value RecordType} {slot next last : Slot} {base l : Location} {step : Step}

/-- Lists are short everywhere in a value if they are in each child, and the value is no long list. -/
theorem Value.Indexable.of_child? (hl : ∀ items, root = .list items → items.length < 2 ^ 31)
    (hc : ∀ step child, root.child? step = some child → child.Indexable) : root.Indexable := by
  intro l items h
  cases l with
  | nil => exact hl items (Option.some.inj h)
  | cons step rest =>
    obtain ⟨child, hg, hrest⟩ := Value.at?_cons_eq_some h
    exact hc step child hg rest items hrest

theorem Value.Indexable.enters (h : root.Indexable) (hr : root.Reaches base slot)
    (hs : slot.Enters step next) : step.Indexable := by
  cases hs with
  | field known held => trivial
  | @element kind items i value held =>
    obtain ⟨hi, -⟩ := List.getElem?_eq_some_iff.mp held
    have hl := h base items hr.at?
    exact Nat.lt_trans hi hl
  | entry sort held => trivial

theorem Value.Indexable.reaches (h : root.Indexable) (hr : root.Reaches base slot)
    (hl : slot.Reaches l last) : l.Indexable := by
  induction hl generalizing base with
  | here => exact fun step hm => absurd hm List.not_mem_nil
  | down first _ ih => exact List.forall_mem_cons.mpr ⟨h.enters hr first, ih (hr.child first)⟩

theorem Segment.isGlob_repr (i : Nat) : isGlob (toString i) = false := by
  have hp : ∀ c ∈ (i : Int).repr.toList, Integer.isNumeral c :=
    fun _ => Integer.isNumeral_of_mem_repr
  rw [isGlob, beq_eq_false_iff_ne]
  intro he
  have hc : '*' ∈ (i : Int).repr.toList := by
    change '*' ∈ (toString i).toList
    rw [he]
    decide
  have hn := hp _ hc
  contradiction

theorem Kind.key_text {keyKind : Kind RecordType} {key : Key} (h : key.isOf keyKind) :
    keyKind.key key.text = .ok key := by
  cases key <;> cases keyKind <;> simp only [Key.isOf, Bool.false_eq_true] at h
  · rfl
  · simp only [Kind.key, Key.text, Integer.read?_text]

/-- The text of a step addresses the place that the step leads to. -/
theorem Place.ofSegment_text (hs : slot.Enters step next) (hi : step.Indexable) :
    ∃ place, Place.ofSegment slot.kind slot.value step.text = .ok place ∧
      Place.ofStep? slot.value step next.kind = some place ∧
      place.step step.text = .ok step ∧ place.kind = next.kind := by
  cases hs with
  | @field kind type fields name declared value known held =>
    refine ⟨.field name declared.kind, ?_, rfl, rfl, rfl⟩
    simp only [ofSegment, Step.text, known, held]
  | @element kind items i value held =>
    obtain ⟨hl, -⟩ := List.getElem?_eq_some_iff.mp held
    refine ⟨.element items (some i) kind, ?_, rfl, ?_, rfl⟩
    · simp only [ofSegment, Step.text, Segment.isGlob_repr, Integer.index?_toString hi,
        Bool.false_eq_true, if_false]
    · simp [Place.step, hl]
  | @entry keyKind kind entries key value sort held =>
    refine ⟨.entry entries key kind, ?_, rfl, ?_, rfl⟩
    · simp only [ofSegment, Step.text, Kind.key_text sort]
    · simp [Place.step, Table.contains, held]

namespace Cursor

theorem walk_append (cursor : Cursor) (front rest : List String) :
    cursor.walk root (front ++ rest) =
      match cursor.walk root front with
      | .error fault => .error fault
      | .ok middle => middle.walk root rest := by
  induction front generalizing cursor with
  | nil => rfl
  | cons segment front ih =>
    simp only [List.cons_append, walk]
    cases cursor.advance root segment with
    | error fault => rfl
    | ok next => exact ih next

theorem advance_text (hr : root.Reaches base slot) (hs : slot.Enters step next)
    (hi : step.Indexable) :
    advance root ⟨base, slot.kind⟩ step.text = .ok ⟨base.child step, next.kind⟩ := by
  obtain ⟨place, hp, -, hst, hk⟩ := Place.ofSegment_text hs hi
  simp only [advance, Cursor.place, hr.at?, hp, hst, hk]

/-- The segments of a location lead along it. -/
theorem walk_segments (hi : l.Indexable) (hr : root.Reaches base slot) (hl : slot.Reaches l last) :
    walk root ⟨base, slot.kind⟩ l.segments = .ok ⟨base ++ l, last.kind⟩ := by
  induction hl generalizing base with
  | here => simp [Location.segments, walk]
  | @down slot next last step rest first later ih =>
    obtain ⟨hs, hi⟩ := List.forall_mem_cons.mp hi
    have ha := advance_text hr first hs
    have hw := ih hi (hr.child first)
    simp only [Location.segments, List.map_cons, walk] at hw ⊢
    rw [ha]
    simpa [Location.child] using hw

theorem destination_segments (hi : l.Indexable) (hr : root.Reaches base slot)
    (hl : slot.Reaches l last) (rest : List String) (segment : String) :
    destination root ⟨base, slot.kind⟩ (l.segments ++ rest) segment =
      destination root ⟨base ++ l, last.kind⟩ rest segment := by
  simp only [destination]
  rw [walk_append, walk_segments hi hr hl]

/-- A slot itself is the place that its last step addresses. -/
theorem own_child (hr : root.Reaches base slot) (hs : slot.Enters step next)
    (hi : step.Indexable) :
    own root ⟨base.child step, next.kind⟩ = destination root ⟨base, slot.kind⟩ [] step.text := by
  obtain ⟨place, hp, ho, -, -⟩ := Place.ofSegment_text hs hi
  simp only [own, Location.child, List.getLast?_concat, List.dropLast_concat, hr.at?,
    Option.bind_some, ho, destination, walk, Cursor.place, hp]

end Cursor

namespace FieldPath

theorem origin_root {type : RecordType} {fields : List (String × Value RecordType)}
    (contexts : ContextStack) (segments : List String) :
    (⟨0, segments⟩ : FieldPath).origin (.record type fields) contexts =
      .ok ⟨[], .record type⟩ := rfl

theorem origin_context {contexts : ContextStack} {path : FieldPath} {context : Context}
    (hu : path.usesContext = true) (hg : contexts.get? path.contextDepth = some context)
    (hc : context.Anchored root) :
    path.origin root contexts = .ok ⟨context.location, context.kind⟩ := by
  obtain ⟨value, hv⟩ := hc
  simp only [origin, hu, if_true, hg, List.isEmpty_eq_false_iff.mpr hv.below, hv.reaches.at?,
    Option.isNone_some, Bool.or_self, Bool.false_eq_true, if_false]

/-- With its context spelled out, a path leads to the same place. -/
theorem destination_spelled {contexts : ContextStack} (others : ContextStack) {path : FieldPath}
    {context : Context} (hx : root.Indexable) (hu : path.usesContext = true)
    (hg : contexts.get? path.contextDepth = some context) (hc : context.Anchored root) :
    (⟨0, context.location.segments ++ path.segments⟩ : FieldPath).destination root others =
      path.destination root contexts := by
  have ho := origin_context hu hg hc
  obtain ⟨value, hv⟩ := hc
  obtain ⟨type, fields, rfl, hr⟩ := hv.reaches.record
  have hb : Value.Reaches (.record type fields) [] ⟨.record type, .record type fields⟩ := .here
  simp only [destination]
  rw [origin_root, ho]
  dsimp only
  cases hl : path.segments.getLast? with
  | none =>
    obtain ⟨base, step, he⟩ := (List.eq_nil_or_concat context.location).resolve_left hv.below
    rw [List.concat_eq_append] at he
    have hv' := hv.reaches
    rw [he] at hv' ⊢
    obtain ⟨container, hc, hs⟩ := Value.Reaches.of_child hv'
    have ht : Location.segments (base ++ [step]) = Location.segments base ++ [step.text] := by
      simp [Location.segments]
    have hd := Cursor.destination_segments (hx.reaches hb hc) hb hc [] step.text
    have hw := Cursor.own_child hc hs (hx.enters hc hs)
    rw [List.getLast?_eq_none_iff.mp hl, List.append_nil, ht, List.getLast?_concat,
      List.dropLast_concat]
    rw [List.append_nil, List.nil_append] at hd
    exact hd.trans hw.symm
  | some last =>
    have hn : path.segments ≠ [] := fun he => by simp [he] at hl
    rw [List.getLast?_append, hl, Option.some_or, List.dropLast_append_of_ne_nil hn]
    exact Cursor.destination_segments (hx.reaches hb hr) hb hr path.segments.dropLast last

end FieldPath

end FieldPatch
