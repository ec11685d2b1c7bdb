import FieldPatch.Proofs.Collection.Keyed
import FieldPatch.Value.Basic
import Mathlib.Logic.Relation

namespace FieldPatch

namespace Value

variable {δ : Type} {value part a a' : Value δ}

/-- The values right inside a value: items of a list, values of a map, fields of a record. -/
def parts : Value δ → List (Value δ)
  | list items => items
  | map entries => entries.map Prod.snd
  | record _ fields => fields.map Prod.snd
  | _ => []

theorem sizeOf_part (h : part ∈ value.parts) : sizeOf part < sizeOf value := by
  have hp {κ : Type} [SizeOf κ] {table : List (κ × Value δ)} (hm : part ∈ table.map Prod.snd) :
      sizeOf part < sizeOf table := by
    obtain ⟨⟨key, held⟩, he, rfl⟩ := List.mem_map.mp hm
    have hs := List.sizeOf_lt_of_mem he
    simp only [Prod.mk.sizeOf_spec] at hs
    dsimp only
    omega
  cases value with
  | list items =>
    have hs : sizeOf part < sizeOf items := List.sizeOf_lt_of_mem h
    simp only [list.sizeOf_spec]
    omega
  | map entries =>
    have hs := hp h
    simp only [map.sizeOf_spec]
    omega
  | record type fields =>
    have hs := hp h
    simp only [record.sizeOf_spec]
    omega
  | _ => contradiction

theorem inductParts {motive : Value δ → Prop}
    (whole : ∀ value, (∀ part ∈ value.parts, motive part) → motive value) (value : Value δ) :
    motive value :=
  whole value fun part _ => inductParts whole part
termination_by sizeOf value
decreasing_by exact sizeOf_part ‹_›

/-- The maps in the value have distinct keys, at any depth. -/
inductive Keyed : Value δ → Prop
  | intro {value : Value δ} (distinct : ∀ entries, value = map entries → (Table.keys entries).Nodup)
      (inside : ∀ part ∈ value.parts, Keyed part) : Keyed value

/-- The numbers of a value itself, not of its parts. -/
def numbers : Value δ → List Binary32
  | float x => [x]
  | vector _ components => components.toList
  | color c => c.channels
  | _ => []

/-- The number occurs in the value, at any depth. -/
inductive HasNumber (x : Binary32) : Value δ → Prop
  | own {value : Value δ} (mem : x ∈ value.numbers) : HasNumber x value
  | inside {value part : Value δ} (mem : part ∈ value.parts) (h : HasNumber x part) :
      HasNumber x value

theorem keyed_iff : value.Keyed ↔ (∀ entries, value = map entries → (Table.keys entries).Nodup) ∧
    ∀ part ∈ value.parts, part.Keyed := by
  constructor
  · rintro ⟨distinct, inside⟩
    exact ⟨distinct, inside⟩
  · rintro ⟨distinct, inside⟩
    exact .intro distinct inside

theorem Keyed.of_part (h : value.Keyed) (hp : part ∈ value.parts) : part.Keyed :=
  (keyed_iff.mp h).2 part hp

theorem Keyed.nodup {entries : List (Key × Value δ)} (h : (map entries).Keyed) :
    (Table.keys entries).Nodup :=
  (keyed_iff.mp h).1 entries rfl

theorem Keyed.of_no_parts (h : value.parts = []) : value.Keyed := by
  refine .intro (fun entries he => ?_) fun part hp => ?_
  · have hn : entries = [] := by simpa [he, parts] using h
    exact hn ▸ List.nodup_nil
  · rw [h] at hp
    contradiction

theorem keyed_list {items : List (Value δ)} : (list items).Keyed ↔ ∀ x ∈ items, x.Keyed := by
  rw [keyed_iff]
  simp [parts]

theorem keyed_map {entries : List (Key × Value δ)} :
    (map entries).Keyed ↔ (Table.keys entries).Nodup ∧ ∀ e ∈ entries, e.2.Keyed := by
  rw [keyed_iff, parts, List.forall_mem_map]
  simp

theorem keyed_record {type : δ} {fields : List (String × Value δ)} :
    (record type fields).Keyed ↔ ∀ e ∈ fields, e.2.Keyed := by
  rw [keyed_iff, parts, List.forall_mem_map]
  simp

/-- One set or one map, at any depth, holds its contents in another order. -/
inductive Rearranges : Value δ → Value δ → Prop
  | members {s t : StringSet} (order : s.members.Perm t.members) :
      Rearranges (stringSet s) (stringSet t)
  | entries {xs ys : List (Key × Value δ)} (order : xs.Perm ys) : Rearranges (map xs) (map ys)
  | item {before after : List (Value δ)} {x y : Value δ} (inside : Rearranges x y) :
      Rearranges (list (before ++ x :: after)) (list (before ++ y :: after))
  | entry {before after : List (Key × Value δ)} {key : Key} {x y : Value δ}
      (inside : Rearranges x y) :
      Rearranges (map (before ++ (key, x) :: after)) (map (before ++ (key, y) :: after))
  | field {type : δ} {before after : List (String × Value δ)} {name : String} {x y : Value δ}
      (inside : Rearranges x y) :
      Rearranges (record type (before ++ (name, x) :: after))
        (record type (before ++ (name, y) :: after))

/-- Any sets and maps hold their contents in another order. -/
def Rearranged : Value δ → Value δ → Prop := Relation.ReflTransGen Rearranges

theorem Rearranges.symm (h : a.Rearranges a') : a'.Rearranges a := by
  induction h with
  | members order => exact .members order.symm
  | entries order => exact .entries order.symm
  | item _ ih => exact .item ih
  | entry _ ih => exact .entry ih
  | field _ ih => exact .field ih

theorem Rearranges.keyed (h : a.Rearranges a') (ha : a.Keyed) : a'.Keyed := by
  induction h with
  | members order => exact .of_no_parts rfl
  | entries order =>
    rw [keyed_map] at ha ⊢
    refine ⟨(order.map Prod.fst).nodup_iff.mp ha.1, fun e he => ?_⟩
    exact ha.2 e (order.mem_iff.mpr he)
  | item _ ih =>
    rw [keyed_list, List.forall_mem_append, List.forall_mem_cons] at ha ⊢
    exact ⟨ha.1, ih ha.2.1, ha.2.2⟩
  | entry _ ih =>
    rw [keyed_map, List.forall_mem_append, List.forall_mem_cons] at ha ⊢
    refine ⟨?_, ha.2.1, ih ha.2.2.1, ha.2.2.2⟩
    simpa [Table.keys] using ha.1
  | field _ ih =>
    rw [keyed_record, List.forall_mem_append, List.forall_mem_cons] at ha ⊢
    exact ⟨ha.1, ih ha.2.1, ha.2.2⟩

theorem Rearranged.keyed (h : a.Rearranged a') (ha : a.Keyed) : a'.Keyed := by
  induction h with
  | refl => exact ha
  | tail _ last ih => exact last.keyed ih

end Value

end FieldPatch
