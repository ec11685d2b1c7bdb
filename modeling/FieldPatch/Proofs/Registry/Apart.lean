import FieldPatch.Registry
import FieldPatch.Proofs.Collection.Keyed
import FieldPatch.Proofs.Session.Turn

namespace FieldPatch

/-- A write is not seen by a function that has the same value before and after it. -/
theorem Table.map_set {κ α β : Type} [DecidableEq κ] {f : α → β} {key : κ} {old a : α}
    {table : List (κ × α)} (h : get? key table = some old) (hf : f a = f old) :
    (set key a table).map (fun e => (e.1, f e.2)) = table.map fun e => (e.1, f e.2) := by
  induction table with
  | nil => rfl
  | cons e rest ih => grind [set, get?]

namespace Registry

variable {r : Registry} {type key : String} {old : Object}

/-- The types in their order, each with its keys in their order. -/
def layout (r : Registry) : Table String (List String) :=
  r.types.map fun e => (e.1, Table.keys e.2)

theorem keys_types_eq (r : Registry) : Table.keys r.types = Table.keys r.layout := by
  simp [Table.keys, layout]

theorem keys_eq (r : Registry) (type : String) :
    r.keys type = (Table.get? type r.layout).getD [] := by
  rw [keys, configs, layout, Table.get?_map]
  cases Table.get? type r.types with
  | none => rfl
  | some configs => rfl

theorem size_eq (r : Registry) :
    r.size = (r.layout.map fun e => e.2.length).foldl (· + ·) 0 := by
  rw [size, layout, List.map_map, List.foldl_map]
  simp [Table.keys]

/-- A type that has a config is one of the types. -/
theorem get?_types (h : r.object? type key = some old) :
    Table.get? type r.types = some (r.configs type) := by
  rw [object?, configs] at h
  rw [configs]
  cases ht : Table.get? type r.types with
  | none => simp [ht, Table.get?] at h
  | some configs => rfl

theorem types_update (h : r.object? type key = some old) (value : Value RecordType) :
    (r.update type key value).types =
      Table.set type (Table.set key { old with value } (r.configs type)) r.types := by
  simp only [update, h]

theorem update_of_none (h : r.object? type key = none) (value : Value RecordType) :
    r.update type key value = r := by
  simp only [update, h]

/-- The written config gets its value and stays the same object; no other config is touched. -/
theorem object?_update (h : r.object? type key = some old) (value : Value RecordType)
    (t k : String) :
    (r.update type key value).object? t k =
      if (t, k) = (type, key) then some { old with value } else r.object? t k := by
  have hc : (r.update type key value).configs t =
      if type = t then Table.set key { old with value } (r.configs type) else r.configs t := by
    rw [configs, types_update h, Table.get?_set]
    split
    · rename_i ht
      rw [← ht, get?_types h, Option.map_some, Option.getD_some]
    · rfl
  rw [object?, hc]
  by_cases ht : type = t
  · subst ht
    have ho : Table.get? key (r.configs type) = some old := h
    rw [if_pos rfl, Table.get?_set]
    by_cases hk : key = k
    · subst hk
      rw [if_pos rfl, if_pos rfl, ho, Option.map_some]
    · rw [if_neg hk, if_neg fun hc => hk (Prod.mk.inj hc).2.symm]
      rfl
  · rw [if_neg ht, if_neg fun hc => ht (Prod.mk.inj hc).1.symm]
    rfl

theorem layout_update (h : r.object? type key = some old) (value : Value RecordType) :
    (r.update type key value).layout = r.layout := by
  rw [layout, types_update h]
  exact Table.map_set (get?_types h) (Table.keys_set key _ _)

/-- The second registry has the types and keys of the first one in the same order, and the same
objects under all names but some. -/
structure Keeps (named : List (String × String)) (r r' : Registry) : Prop where
  types : Table.keys r'.types = Table.keys r.types
  keys : ∀ type, r'.keys type = r.keys type
  size : r'.size = r.size
  others : ∀ type key, (type, key) ∉ named → r'.object? type key = r.object? type key

theorem Keeps.refl (named : List (String × String)) (r : Registry) : Keeps named r r :=
  ⟨rfl, fun _ => rfl, rfl, fun _ _ _ => rfl⟩

theorem Keeps.append {first second : List (String × String)} {a b c : Registry}
    (h : Keeps first a b) (h' : Keeps second b c) : Keeps (first ++ second) a c where
  types := h'.types.trans h.types
  keys := fun type => (h'.keys type).trans (h.keys type)
  size := h'.size.trans h.size
  others := fun type key hn => by
    obtain ⟨h₁, h₂⟩ := not_or.mp (mt List.mem_append.mpr hn)
    exact (h'.others type key h₂).trans (h.others type key h₁)

theorem keeps_update (type key : String) (value : Value RecordType) (r : Registry) :
    Keeps [(type, key)] r (r.update type key value) := by
  cases h : r.object? type key with
  | none =>
    rw [update_of_none h]
    exact .refl _ r
  | some old =>
    have hl := layout_update h value
    exact {
      types := by rw [keys_types_eq, hl, ← keys_types_eq]
      keys := fun t => by rw [keys_eq, hl, ← keys_eq]
      size := by rw [size_eq, hl, ← size_eq]
      others := fun t k hn => by
        rw [object?_update h, if_neg (mt List.mem_singleton.mpr hn)] }

end Registry

/-- A script with the request that names the config it is for. -/
structure ScriptCall where
  script : Script
  base : Request

/-- The type and key of the config that the script is for. -/
def ScriptCall.entry (call : ScriptCall) : String × String :=
  (call.base.typeName, call.base.fileKey)

/-- A session and the registry whose configs it edits. -/
structure Workshop where
  session : Session
  registry : Registry

namespace Workshop

/-- Runs a script. There is no answer when the registry does not hold the config. -/
def call (w : Workshop) (c : ScriptCall) : Option ScriptRun × Workshop :=
  match w.registry.applyScript c.script c.base w.session with
  | some (run, registry) => (some run, ⟨run.session, registry⟩)
  | none => (none, w)

def after (w : Workshop) (calls : List ScriptCall) : Workshop :=
  calls.foldl (fun w c => (w.call c).2) w

/-- What one call comes to: nothing at all without the config, and otherwise what the session makes
of that config, in the place where it was. -/
structure Serves (w : Workshop) (c : ScriptCall) : Prop where
  unanswered : (w.call c).1 = none ↔ w.registry.get? c.base.typeName c.base.fileKey = none
  still : (w.call c).1 = none → (w.call c).2 = w
  answered : ∀ object, w.registry.object? c.base.typeName c.base.fileKey = some object →
    let run := w.session.applyScript c.script c.base object
    (w.call c).1 = some run ∧ (w.call c).2.session = run.session ∧
      (w.call c).2.registry.object? c.base.typeName c.base.fileKey =
        some { object with value := run.root }
  kept : Registry.Keeps [c.entry] w.registry (w.call c).2.registry

variable (w : Workshop) (c : ScriptCall)

theorem call_of_absent (h : w.registry.object? c.base.typeName c.base.fileKey = none) :
    w.call c = (none, w) := by
  simp [call, Registry.applyScript, h]

theorem call_of_stored {object : Object}
    (h : w.registry.object? c.base.typeName c.base.fileKey = some object) :
    let run := w.session.applyScript c.script c.base object
    w.call c =
      (some run, ⟨run.session, w.registry.update c.base.typeName c.base.fileKey run.root⟩) := by
  simp [call, Registry.applyScript, h]

theorem call_serves : w.Serves c := by
  cases h : w.registry.object? c.base.typeName c.base.fileKey with
  | none =>
    have hc := w.call_of_absent c h
    exact {
      unanswered := by simp [hc, Registry.get?, h]
      still := fun _ => by rw [hc]
      answered := fun object ho => by simp [h] at ho
      kept := by
        rw [hc]
        exact .refl _ _ }
  | some stored =>
    have hc := w.call_of_stored c h
    exact {
      unanswered := by simp [hc, Registry.get?, h]
      still := fun hn => by simp [hc] at hn
      answered := fun object ho => by
        obtain rfl := Option.some.inj (h.symm.trans ho)
        exact ⟨by rw [hc], by rw [hc], by rw [hc, Registry.object?_update h, if_pos rfl]⟩
      kept := by
        rw [hc]
        exact Registry.keeps_update _ _ _ _ }

theorem after_append (first second : List ScriptCall) :
    w.after (first ++ second) = (w.after first).after second := List.foldl_append

theorem after_keeps (calls : List ScriptCall) :
    Registry.Keeps (calls.map ScriptCall.entry) w.registry (w.after calls).registry := by
  induction calls generalizing w with
  | nil => exact .refl _ _
  | cons c rest ih => exact (w.call_serves c).kept.append (ih (w.call c).2)

/-- A config that only one call names is the one the registry held from the start, with what this
call made of it. -/
theorem object?_after_of_lone {earlier later : List ScriptCall} {c : ScriptCall}
    (he : c.entry ∉ earlier.map ScriptCall.entry) (hl : c.entry ∉ later.map ScriptCall.entry) :
    (w.after (earlier ++ c :: later)).registry.object? c.base.typeName c.base.fileKey =
      (w.registry.object? c.base.typeName c.base.fileKey).map fun object =>
        { object with
          value := ((w.after earlier).session.applyScript c.script c.base object).root } := by
  have hs := (w.after earlier).call_serves c
  have hb := (w.after_keeps earlier).others _ _ he
  have ha := (((w.after earlier).call c).2.after_keeps later).others _ _ hl
  have hr : w.after (earlier ++ c :: later) = ((w.after earlier).call c).2.after later :=
    w.after_append earlier (c :: later)
  rw [hr, ha, ← hb]
  cases ho : (w.after earlier).registry.object? c.base.typeName c.base.fileKey with
  | none => rw [(w.after earlier).call_of_absent c ho, ho, Option.map_none]
  | some object => rw [(hs.answered object ho).2.2, Option.map_some]

/-- Scripts run by one session on the configs of one registry stay apart: each call is served on the
config that it names and nothing else, whatever the calls before it; types, keys and their number
stay, as do the configs that no call names; and a config that one call names is in the end what this
call made of it. -/
theorem scripts_stay_apart (w : Workshop) (calls : List ScriptCall) :
    (∀ earlier c later, calls = earlier ++ c :: later → (w.after earlier).Serves c) ∧
      Registry.Keeps (calls.map ScriptCall.entry) w.registry (w.after calls).registry ∧
      ∀ earlier c later, calls = earlier ++ c :: later →
        (∀ other ∈ earlier ++ later, other.entry ≠ c.entry) →
        (w.after calls).registry.object? c.base.typeName c.base.fileKey =
          (w.registry.object? c.base.typeName c.base.fileKey).map fun object =>
            { object with
              value := ((w.after earlier).session.applyScript c.script c.base object).root } := by
  refine ⟨fun earlier c _ _ => (w.after earlier).call_serves c, w.after_keeps calls, ?_⟩
  rintro earlier c later rfl hn
  refine w.object?_after_of_lone (fun he => ?_) (fun hl => ?_)
  · obtain ⟨other, hm, ho⟩ := List.mem_map.mp he
    exact hn other (List.mem_append_left _ hm) ho
  · obtain ⟨other, hm, ho⟩ := List.mem_map.mp hl
    exact hn other (List.mem_append_right _ hm) ho

/-- Of two equal units, the script for one removes a number, and the other keeps it. -/
example :
    let unit := RecordType.numbered.fresh
    let w : Workshop := {
      session := (Session.start {} []).1
      registry := (Registry.insert "Unit" "b" unit (Registry.insert "Unit" "a" unit {}).2).2 }
    let calls : List ScriptCall :=
      [⟨{ steps := [⟨1, "numbers.0", "!-"⟩] }, { typeName := "Unit", fileKey := "a" }⟩]
    ["a", "b"].map (fun key => ((w.after calls).registry.get? "Unit" key).map fun value =>
      (value.at? [.field "numbers", .index 0]).isSome) = [some false, some true] := by
  decide +kernel

end Workshop

end FieldPatch
