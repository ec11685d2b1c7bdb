import FieldPatch.Proofs.Schema.Declared
import FieldPatch.Value.Location
import Mathlib.Data.List.Induction

namespace FieldPatch

namespace Value

variable {δ : Type}

/-- Each call gives back what its field held after the calls before it. -/
theorem getElem?_assignAll {record : Value δ} {calls : List (String × Value δ)} {i : Nat}
    {name : String} {value : Value δ} (h : calls[i]? = some (name, value)) :
    (record.assignAll calls).1[i]? =
      some ((record.assignAll (calls.take i)).2.child? (.field name)) := by
  obtain ⟨hi, he⟩ := List.getElem?_eq_some_iff.mp h
  have hs : calls = calls.take i ++ (name, value) :: calls.drop (i + 1) := by
    rw [← he, List.getElem_cons_drop, List.take_append_drop]
  have hl : (record.assignAll (calls.take i)).1.length = i := by
    rw [length_assignAll, List.length_take, Nat.min_eq_left (Nat.le_of_lt hi)]
  have ha := assignAll_append record (calls.take i) ((name, value) :: calls.drop (i + 1))
  rw [← hs] at ha
  rw [ha, List.getElem?_append_right (Nat.le_of_eq hl), hl, Nat.sub_self, assignAll,
    List.getElem?_cons_zero]
  rfl

end Value

namespace RecordType

variable {type : RecordType}

/-- What a field of a new record holds after some calls: the value that was set last, or else what
the type starts the field with. -/
def held? (type : RecordType) (calls : List (String × Value RecordType)) (name : String) :
    Option (Value RecordType) :=
  (type.field? name).map fun field =>
    ((calls.filter fun call => call.1 = name).getLast?.map Prod.snd).getD
      (field.initial.getD field.kind.zero)

theorem held?_concat (type : RecordType) (calls : List (String × Value RecordType))
    (call : String × Value RecordType) (name : String) :
    type.held? (calls ++ [call]) name =
      if call.1 = name then (type.held? calls name).map fun _ => call.2
      else type.held? calls name := by
  rw [held?, List.filter_append]
  split
  · rename_i hn
    have hf : [call].filter (fun c => decide (c.1 = name)) = [call] := by simp [hn]
    rw [hf, List.getLast?_concat, held?, Option.map_map]
    rfl
  · rename_i hn
    have hf : [call].filter (fun c => decide (c.1 = name)) = [] := by simp [hn]
    rw [hf, List.append_nil, held?]

/-- A record of the type with some of its fields set, and what the calls gave back. -/
structure Instance (type : RecordType) (calls : List (String × Value RecordType))
    (answers : List (Option (Value RecordType))) (record : Value RecordType) : Prop where
  /-- There is one value for each field, in the order of the fields. -/
  aligned : ∃ fields, record = .record type fields ∧ Table.keys fields = Table.keys type.fields
  holds : ∀ name, record.child? (.field name) = type.held? calls name
  /-- A field is read at its place in the table of the type. -/
  placed : ∀ fields name, record = .record type fields → record.child? (.field name) =
    (Table.index? name type.fields).bind fun i => (fields.map Prod.snd)[i]?
  answered : answers.length = calls.length
  answers : ∀ i name value, calls[i]? = some (name, value) →
    answers[i]? = some (type.held? (calls.take i) name)
  unknown : ∀ name value, type.field? name = none → record.assign name value = (none, record)

variable {calls : List (String × Value RecordType)}

/-- What stands in a record after some calls is what the calls left in each field. -/
theorem exists_fields (type : RecordType) (calls : List (String × Value RecordType)) :
    ∃ fields, (type.fresh.assignAll calls).2 = .record type fields ∧
      Table.keys fields = Table.keys type.fields ∧
      ∀ name, Table.get? name fields = type.held? calls name := by
  induction calls using List.reverseRecOn with
  | nil =>
    refine ⟨_, rfl, ?_, fun name => ?_⟩
    · simp [Table.keys, Function.comp_def]
    · exact Table.get?_map (fun field => field.initial.getD field.kind.zero) name type.fields
  | append_singleton calls call ih =>
    obtain ⟨fields, hr, hk, hg⟩ := ih
    have ha := Value.assignAll_append type.fresh calls [call]
    refine ⟨Table.set call.1 call.2 fields, ?_, (Table.keys_set _ _ _).trans hk, fun name => ?_⟩
    · rw [ha, hr]
      rfl
    · rw [Table.get?_set, held?_concat, hg]

theorem index?_of_keys {α β : Type} {name : String} {table : List (String × α)}
    {other : List (String × β)} (h : Table.keys table = Table.keys other) :
    Table.index? name table = Table.index? name other := by
  rw [Table.index?, Table.index?, h]

theorem instance_fresh (type : RecordType) (calls : List (String × Value RecordType)) :
    Instance type calls (type.fresh.assignAll calls).1 (type.fresh.assignAll calls).2 := by
  have hc (calls : List (String × Value RecordType)) (name : String) :
      (type.fresh.assignAll calls).2.child? (.field name) = type.held? calls name := by
    obtain ⟨fields, hr, -, hg⟩ := exists_fields type calls
    rw [hr]
    exact hg name
  obtain ⟨fields, hr, hk, hg⟩ := exists_fields type calls
  constructor
  · exact ⟨fields, hr, hk⟩
  · exact hc calls
  · intro fields' name he
    cases hr.symm.trans he
    rw [he, ← index?_of_keys hk]
    exact Table.get?_eq_index? name fields
  · exact Value.length_assignAll type.fresh calls
  · intro i name value hi
    rw [Value.getElem?_assignAll hi, hc]
  · intro name value hn
    have ho : Table.get? name fields = none := by
      rw [hg, held?, hn, Option.map_none]
    have hs : Table.set name value fields = fields := Table.set_of_absent ho value
    rw [hr, Value.assign, Value.child?, Value.setChild, ho, hs]

/-- However a type is declared, its fields stand where they were declared first and are what they
were declared as last; and a record of the type holds in each of them what it was set to last. -/
theorem fields_keep_places (name : String) (declarations : List Declaration)
    (calls : List (String × Value RecordType)) :
    let type := build name declarations
    let run := type.fresh.assignAll calls
    FieldTable declarations type ∧ Instance type calls run.1 run.2 := by
  intro type run
  exact ⟨fieldTable_build name declarations, instance_fresh type calls⟩

end RecordType

end FieldPatch
