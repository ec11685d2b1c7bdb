import FieldPatch.Proofs.Edit.Address
import FieldPatch.Proofs.Edit.Decision
import Mathlib.Logic.Relation

namespace FieldPatch

/-- A config and the contexts set in it. -/
structure Scene where
  root : Value RecordType
  contexts : ContextStack

namespace Scene

/-- One change of a config or of its contexts, with what an edit has checked before it. -/
inductive Move (tags : TagTable) : Scene → Scene → Prop
  | drop {root : Value RecordType} {contexts front : ContextStack}
      (cut : front.entries <+: contexts.entries) : Move tags ⟨root, contexts⟩ ⟨root, front⟩
  | remember {root : Value RecordType} {contexts : ContextStack} {l : Location}
      {kind : Kind RecordType} {value : Value RecordType} (segment : String)
      (named : root.Names l ⟨kind, value⟩) :
      Move tags ⟨root, contexts⟩ ⟨root, contexts.push ⟨l, kind, segment⟩⟩
  | assign {root changed : Value RecordType} {contexts : ContextStack} {l : Location}
      {kind : Kind RecordType} {r : SlotRequest} {old value : Value RecordType} {opens : Bool}
      {detail : String} (named : root.Names l ⟨kind, old⟩)
      (decided : SlotEdit.decide tags r kind old = .ok (.assign value opens detail))
      (written : root.replace? l value = some changed) :
      Move tags ⟨root, contexts⟩ ⟨changed, (contexts.discardWithin l false).2⟩
  | amend {root changed : Value RecordType} {contexts : ContextStack} {l : Location}
      {kind : Kind RecordType} {r : SlotRequest} {old value : Value RecordType} {detail : String}
      (named : root.Names l ⟨kind, old⟩)
      (decided : SlotEdit.decide tags r kind old = .ok (.amend value detail))
      (written : root.replace? l value = some changed) :
      Move tags ⟨root, contexts⟩ ⟨changed, contexts⟩
  | makeElement {root changed : Value RecordType} {contexts : ContextStack} {list : Location}
      {kind : Kind RecordType} {items : List (Value RecordType)} {index : Nat} {raw : String}
      {entry : Value RecordType} (held : root.Reaches list ⟨.list kind, .list items⟩)
      (inside : index ≤ items.length) (made : Editing.newEntry kind raw = .ok entry)
      (written : root.replace? list (.list (items.insertIdx index entry)) = some changed) :
      Move tags ⟨root, contexts⟩ ⟨changed, contexts.afterInsert list index⟩
  | dropElement {root changed : Value RecordType} {contexts : ContextStack} {list : Location}
      {kind : Kind RecordType} {items : List (Value RecordType)} {index : Nat}
      (held : root.Reaches list ⟨.list kind, .list items⟩)
      (written : root.replace? list (.list (items.eraseIdx index)) = some changed) :
      Move tags ⟨root, contexts⟩ ⟨changed, (contexts.afterRemove list index).2⟩
  | makeEntry {root changed : Value RecordType} {contexts : ContextStack} {map : Location}
      {keyKind kind : Kind RecordType} {entries : List (Key × Value RecordType)} {key : Key}
      {raw : String} {entry : Value RecordType}
      (held : root.Reaches map ⟨.map keyKind kind, .map entries⟩) (sort : key.isOf keyKind)
      (made : Editing.newEntry kind raw = .ok entry)
      (written : root.replace? map (.map (entries ++ [(key, entry)])) = some changed) :
      Move tags ⟨root, contexts⟩ ⟨changed, contexts⟩
  | dropEntry {root changed : Value RecordType} {contexts : ContextStack} {map : Location}
      {keyKind kind : Kind RecordType} {entries : List (Key × Value RecordType)} {key : Key}
      (held : root.Reaches map ⟨.map keyKind kind, .map entries⟩)
      (written : root.replace? map (.map (Table.erase key entries)) = some changed) :
      Move tags ⟨root, contexts⟩
        ⟨changed, (contexts.discardWithin (map.child (.key key)) true).2⟩

def Moves (tags : TagTable) : Scene → Scene → Prop := Relation.ReflTransGen (Move tags)

variable {tags : TagTable}

theorem Moves.refl (s : Scene) : Moves tags s s := Relation.ReflTransGen.refl

theorem Moves.trans {s t u : Scene} (h : Moves tags s t) (h' : Moves tags t u) : Moves tags s u :=
  Relation.ReflTransGen.trans h h'

theorem Move.moves {s t : Scene} (h : Move tags s t) : Moves tags s t :=
  Relation.ReflTransGen.single h

end Scene

namespace SlotEdit

theorem of_amend {tags : TagTable} {r : SlotRequest} {kind : Kind RecordType}
    {current value : Value RecordType} {detail : String}
    (h : decide tags r kind current = .ok (.amend value detail)) :
    kind = .stringSet ∧ (current = .null ∨ ∃ set, current = .stringSet set) ∧
      ∃ set, value = .stringSet set := by
  have hd := decide_decision tags r kind current
  rw [h] at hd
  cases hd with
  | newSet detail asked sort held => exact ⟨sort, .inl held, _, rfl⟩
  | addMember detail asked sort held absent => exact ⟨sort, .inr ⟨_, held⟩, _, rfl⟩
  | dropMember detail asked sort held present => exact ⟨sort, .inr ⟨_, held⟩, _, rfl⟩

end SlotEdit

namespace Scene

variable {tags : TagTable}

/-- No move leaves a context that leads nowhere, or to a slot of another kind. -/
theorem Move.anchored {s t : Scene} (h : Move tags s t) (ha : s.contexts.Anchored s.root) :
    t.contexts.Anchored t.root := by
  cases h with
  | drop cut => exact ha.of_prefix cut
  | remember segment named => exact ha.push ⟨_, named⟩
  | assign named decided written => exact ha.discardWithin named.below written
  | amend named decided written =>
    refine ha.of_leaf named ?_ written
    obtain ⟨-, (rfl | ⟨set, rfl⟩), -⟩ := SlotEdit.of_amend decided
    · intro step
      cases step <;> rfl
    · intro step
      cases step <;> rfl
  | makeElement held inside made written => exact ha.afterInsert held written
  | dropElement held written => exact ha.afterRemove held written
  | makeEntry held sort made written => exact ha.of_makeEntry held written
  | dropEntry held written => exact ha.of_dropEntry held written

theorem Moves.anchored {s t : Scene} (h : Moves tags s t) (ha : s.contexts.Anchored s.root) :
    t.contexts.Anchored t.root := by
  induction h with
  | refl => exact ha
  | tail _ move ih => exact move.anchored ih

end Scene

end FieldPatch
