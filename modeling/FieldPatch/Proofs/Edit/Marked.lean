import FieldPatch.Proofs.Context.Spelled
import FieldPatch.Proofs.Edit.Origin

namespace FieldPatch

namespace Place

/-- A list position with an element is within the list. -/
theorem inside_of_present {items : List (Value RecordType)} {index : Option Nat}
    (h : position items index < items.length) :
    index.filter (· < items.length) = some (position items index) := by
  rw [position] at h ⊢
  cases hf : index.filter (· < items.length) with
  | none => simp [hf] at h
  | some i => rfl

end Place

/-- The segments of a location, taken as a path from the root, lead to the slot there. -/
theorem FieldPath.destination_of_reaches {root : Value RecordType} {l : Location} {slot : Slot}
    (contexts : ContextStack) (hr : root.Reaches l slot) (hn : l ≠ []) (hi : l.Indexable) :
    ∃ d : Destination, (⟨0, l.segments⟩ : FieldPath).destination root contexts = .ok d ∧
      d.slot = l ∧ d.place.kind = slot.kind := by
  obtain ⟨base, step, rfl⟩ := (List.eq_nil_or_concat l).resolve_left hn
  rw [List.concat_eq_append] at hr hi ⊢
  obtain ⟨container, hc, hs⟩ := Value.Reaches.of_child hr
  obtain ⟨type, fields, rfl, -⟩ := hr.record
  have hb : Value.Reaches (.record type fields) [] ⟨.record type, .record type fields⟩ := .here
  have hi' : Location.Indexable base := fun s hm => hi s (List.mem_append_left _ hm)
  obtain ⟨place, hp, ho, -, -⟩ := Place.ofSegment_text hs (hi step (by simp))
  obtain ⟨ht, hk⟩ := Place.lastStep_of_ofStep? ho (by simp [hs.child?])
  have hd := Cursor.destination_segments hi' hb hc [] step.text
  refine ⟨⟨base, place⟩, ?_, by rw [Destination.slot, ht, Location.child], hk⟩
  rw [List.append_nil, List.nil_append] at hd
  simp only [destination, Location.segments, List.map_append, List.map_cons, List.map_nil,
    List.getLast?_concat, List.dropLast_concat] at hd ⊢
  rw [origin_root]
  exact hd.trans (by simp only [Cursor.destination, Cursor.walk, Cursor.place, hc.at?, hp])

namespace Editing

variable {settings : Settings} {tags : TagTable} {contexts : ContextStack} {request : Request}
  {root : Value RecordType} {e : Editing} {d : Destination}

/-- An operation that neither adds nor takes away goes to the slot, when there is one. -/
theorem editDestination_of_present (hh : d.Held e.root)
    (hs : (e.root.at? d.slot).isSome = true) (hi : e.progress.op ≠ .insert)
    (hr : e.progress.op ≠ .remove) :
    editDestination tags d e = editSlot tags d.slot d.place.kind
      { e with progress := { e.progress with atEnd := true } } := by
  obtain ⟨container, place⟩ := d
  -- What is there needs no room made for it, so the two excluded operations are the only ones that
  -- do not go on to the slot.
  cases place with
  | field name kind => rfl
  | element items index kind =>
    have hp : Place.position items index < items.length := by
      have hc := Value.isSome_child? hh hs
      simpa [Place.lastStep, Value.child?] using hc
    simp only [editDestination, editElement, Place.inside_of_present hp]
    rfl
  | entry entries key kind =>
    have hp : Table.contains key entries = true := Value.isSome_child? hh hs
    simp only [editDestination, editEntry, hp]
    rfl

/-- A slot that is there becomes a context, unless it holds no slots. -/
theorem editSlot_mark {slot : Location} {kind : Kind RecordType} {current : Value RecordType}
    (ho : e.progress.op = .setContext) (hs : e.root.at? slot = some current) :
    editSlot tags slot kind e =
      if kind.isTerminal then (.error (.contextOnTerminal kind), e.aim slot kind)
      else (.ok .contextSet, (e.aim slot kind).setContext slot kind) := by
  rw [editSlot_of_held hs]
  simp only [ho, SlotEdit.decide]
  cases kind.isTerminal with
  | true => rfl
  | false => rfl

/-- Setting a slot that is there as a context, when the path leads to it. -/
structure Marks (d : Destination) (contexts : ContextStack) (path : FieldPath)
    (r : Outcome × Editing) : Prop where
  location : r.2.progress.location = d.slot
  targetKind : r.2.progress.targetKind = some d.place.kind
  structural : d.place.kind.isStructural = true → r.1 = .contextSet ∧ ∃ segment,
    r.2.contexts =
      (path.front contexts).remember path.usesContext ⟨d.slot, d.place.kind, segment⟩
  terminal : d.place.kind.isStructural = false →
    r.1 = .faulted (.contextOnTerminal d.place.kind)

/-- An edit that sets a context comes to the slot that its path leads to, whatever that holds. -/
theorem run_marks {path : FieldPath} (hp : FieldPath.parse request.path = .ok path)
    (hd : path.destination root contexts = .ok d) (hs : (root.at? d.slot).isSome = true)
    (ho : (Operation.split request.value).1 = .setContext) :
    Marks d contexts path (run settings tags contexts request root) := by
  obtain ⟨arrived, hv, ha⟩ := attempt_of_destination settings tags hp hd
  have hh : d.Held arrived.root := hv.root ▸ hv.held
  have hs : (arrived.root.at? d.slot).isSome = true := hv.root ▸ hs
  have ho : arrived.progress.op = .setContext := hv.op.trans ho
  obtain ⟨current, hg⟩ := Option.isSome_iff_exists.mp hs
  let standing : Editing := { arrived with progress := { arrived.progress with atEnd := true } }
  have he : editDestination tags d arrived = editSlot tags d.slot d.place.kind standing :=
    editDestination_of_present hh hs (by simp [ho]) (by simp [ho])
  have hm : editSlot tags d.slot d.place.kind standing = _ := editSlot_mark ho hg
  simp only [run, ha, he, hm]
  by_cases hk : d.place.kind.isStructural = true
  · rw [if_neg (by simp [Kind.isTerminal, hk])]
    constructor
    case location => simp [aim]
    case targetKind => simp [aim]
    case structural =>
      refine fun _ => ⟨rfl, arrived.progress.segment, ?_⟩
      rw [contexts_setContext_eq]
      change arrived.contexts.remember arrived.chained _ = _
      rw [hv.contexts, hv.chained]
      rfl
    case terminal =>
      intro hn
      rw [hk] at hn
      contradiction
  · rw [if_pos (by simp [Kind.isTerminal, hk])]
    exact ⟨rfl, rfl, fun hn => absurd hn hk, fun _ => rfl⟩

end Editing

end FieldPatch
