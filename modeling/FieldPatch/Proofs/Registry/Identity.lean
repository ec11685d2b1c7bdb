import FieldPatch.Proofs.Registry.Apart

namespace FieldPatch

namespace Registry

/-- What happens to a registry: a config is put in, or one that it holds gets a value in its place,
as from an edit or a script. -/
inductive Act where
  | insert (type key : String) (value : Value RecordType)
  | write (type key : String) (value : Value RecordType)

def act (r : Registry) : Act → Registry
  | .insert type key value => (r.insert type key value).2
  | .write type key value => r.update type key value

/-- The registry that some acts build, one after the other. -/
def build (acts : List Act) : Registry := acts.foldl act {}

variable {r r' : Registry} {type key : String} {target : ObjectId} {old object : Object}

section Insert

theorem configs_of_types {configs : Table String Object}
    (h : r'.types = Table.put type configs r.types) (t : String) :
    r'.configs t = if type = t then configs else r.configs t := by
  rw [Registry.configs, h, Table.get?_put]
  split
  · rfl
  · rfl

/-- An object put under a type and key is found there, and all others where they were. -/
theorem object?_of_types
    (h : r'.types = Table.put type (Table.put key object (r.configs type)) r.types) (t k : String) :
    r'.object? t k = if (t, k) = (type, key) then some object else r.object? t k := by
  rw [object?, configs_of_types h]
  by_cases ht : type = t
  · subst ht
    rw [if_pos rfl, Table.get?_put]
    by_cases hk : key = k
    · rw [if_pos hk, if_pos (by rw [hk])]
    · rw [if_neg hk, if_neg fun hc => hk (Prod.mk.inj hc).2.symm]
      rfl
  · rw [if_neg ht, if_neg fun hc => ht (Prod.mk.inj hc).1.symm]
    rfl

theorem nodup_keys_of_types (hn : ∀ t, (r.keys t).Nodup)
    (h : r'.types = Table.put type (Table.put key object (r.configs type)) r.types) (t : String) :
    (r'.keys t).Nodup := by
  rw [keys, configs_of_types h]
  split
  · exact Table.nodup_keys_put (hn type) key object
  · exact hn t

theorem insert_of_held (h : r.object? type key = some old) (value : Value RecordType) :
    (r.insert type key value).2.types =
        Table.put type (Table.put key { old with value } (r.configs type)) r.types ∧
      (r.insert type key value).2.made = r.made := by
  simp only [insert, h, and_self]

theorem insert_of_absent (h : r.object? type key = none) (value : Value RecordType) :
    (r.insert type key value).2.types =
        Table.put type (Table.put key ⟨.stored r.made, value⟩ (r.configs type)) r.types ∧
      (r.insert type key value).2.made = r.made + 1 := by
  simp only [insert, h, and_self]

end Insert

/-- Each object is held under one type and key only, and is one that the registry has made. -/
structure Distinct (r : Registry) : Prop where
  keys_nodup : ∀ type, (r.keys type).Nodup
  made : ∀ type key object, r.object? type key = some object →
    ∃ n < r.made, object.id = .stored n
  apart : ∀ type key object type' key' object', r.object? type key = some object →
    r.object? type' key' = some object' → object.id = object'.id →
      (type, key) = (type', key')

namespace Distinct

/-- One entry gets an object that is the one it had, or a new one. -/
theorem put (h : r.Distinct) (hn : ∀ type, (r'.keys type).Nodup) (hm : r.made ≤ r'.made)
    (ho : ∀ t k, r'.object? t k = if (t, k) = (type, key) then some object else r.object? t k)
    (hi : ∃ n < r'.made, object.id = .stored n)
    (hf : ∀ t k other, r.object? t k = some other → object.id = other.id → (t, k) = (type, key)) :
    r'.Distinct where
  keys_nodup := hn
  made := by
    intro t k other hg
    rw [ho] at hg
    split at hg
    · cases hg
      exact hi
    · obtain ⟨n, hl, he⟩ := h.made t k other hg
      exact ⟨n, Nat.lt_of_lt_of_le hl hm, he⟩
  apart := by
    intro t k other t' k' other' hg hg' he
    rw [ho] at hg hg'
    split at hg <;> split at hg'
    · rename_i h₁ h₂
      exact h₁.trans h₂.symm
    · rename_i h₁ h₂
      cases hg
      exact absurd (hf t' k' other' hg' he) h₂
    · rename_i h₁ h₂
      cases hg'
      exact absurd (hf t k other hg he.symm) h₁
    · exact h.apart t k other t' k' other' hg hg' he

/-- The entry keeps its object, and others do not have it. -/
theorem keep (h : r.Distinct) (hg : r.object? type key = some old)
    (hn : ∀ type, (r'.keys type).Nodup) (hm : r'.made = r.made) {value : Value RecordType}
    (ho : ∀ t k, r'.object? t k =
      if (t, k) = (type, key) then some { old with value } else r.object? t k) : r'.Distinct := by
  refine h.put hn (Nat.le_of_eq hm.symm) ho ?_ fun t k other hc he => ?_
  · rw [hm]
    exact h.made type key old hg
  · exact h.apart t k other type key old hc hg he.symm

theorem insert (h : r.Distinct) (type key : String) (value : Value RecordType) :
    (r.insert type key value).2.Distinct := by
  cases hg : r.object? type key with
  | some old =>
    obtain ⟨ht, hm⟩ := insert_of_held hg value
    exact h.keep hg (nodup_keys_of_types h.keys_nodup ht) hm (object?_of_types ht)
  | none =>
    obtain ⟨ht, hm⟩ := insert_of_absent hg value
    refine h.put (nodup_keys_of_types h.keys_nodup ht) (by omega) (object?_of_types ht)
      ⟨r.made, by omega, rfl⟩ fun t k other hc he => ?_
    -- The number of the new object is beyond those of all that were made before.
    obtain ⟨n, hl, hi⟩ := h.made t k other hc
    have hs : ObjectId.stored r.made = .stored n := he.trans hi
    cases hs
    exact absurd hl (Nat.lt_irrefl _)

theorem update (h : r.Distinct) (type key : String) (value : Value RecordType) :
    (r.update type key value).Distinct := by
  cases hg : r.object? type key with
  | none => rwa [update_of_none hg]
  | some old =>
    have hk := keeps_update type key value r
    refine h.keep hg (fun t => ?_) ?_ (object?_update hg value)
    · rw [hk.keys]
      exact h.keys_nodup t
    · simp only [Registry.update, hg]

theorem act (h : r.Distinct) (a : Act) : (r.act a).Distinct := by
  cases a with
  | insert type key value => exact h.insert type key value
  | write type key value => exact h.update type key value

end Distinct

theorem object?_empty (type key : String) : ({} : Registry).object? type key = none := rfl

theorem distinct_empty : ({} : Registry).Distinct where
  keys_nodup := fun _ => List.nodup_nil
  made := fun type key _ h => by simp [object?_empty] at h
  apart := fun type key _ _ _ _ h => by simp [object?_empty] at h

theorem distinct_build (acts : List Act) : (build acts).Distinct :=
  List.foldlRecOn (motive := Distinct) acts act distinct_empty fun _ h a _ => h.act a

/-- The key of an object is the one under which it is held, and there is no other way to a key. -/
theorem Distinct.findKey?_eq_some_iff (h : r.Distinct) :
    r.findKey? type target = some key ↔ ∃ value, r.object? type key = some ⟨target, value⟩ := by
  have hn : (Table.keys (r.configs type)).Nodup := h.keys_nodup type
  rw [findKey?, Option.map_eq_some_iff]
  constructor
  · rintro ⟨⟨k, object⟩, hf, rfl⟩
    have hm := List.mem_of_find?_eq_some hf
    have hi := List.find?_some hf
    obtain rfl : object.id = target := by simpa using hi
    exact ⟨object.value, (Table.get?_eq_some_iff hn).mpr hm⟩
  · rintro ⟨value, ho⟩
    have hm : (key, Object.mk target value) ∈ r.configs type := Table.mem_of_get? ho
    obtain ⟨⟨k, object⟩, hf⟩ : ∃ e,
        (r.configs type).find? (fun e => decide (e.2.id = target)) = some e := by
      rw [← Option.isSome_iff_exists, List.find?_isSome]
      exact ⟨_, hm, by simp⟩
    have hi : object.id = target := by simpa using List.find?_some hf
    have hg : r.object? type k = some object :=
      (Table.get?_eq_some_iff hn).mpr (List.mem_of_find?_eq_some hf)
    have hk := (Prod.mk.inj (h.apart type k object type key _ hg ho hi)).2
    exact ⟨(k, object), hf, hk⟩

theorem Distinct.findKey?_of_held (h : r.Distinct) (ho : r.object? type key = some object) :
    r.findKey? type object.id = some key := h.findKey?_eq_some_iff.mpr ⟨object.value, ho⟩

/-- An object that stands alone, be it equal to a config, is not found. -/
theorem Distinct.findKey?_loose (h : r.Distinct) (type : String) (n : Nat) :
    r.findKey? type (.loose n) = none := by
  apply Option.eq_none_iff_forall_ne_some.mpr
  intro key hk
  obtain ⟨value, ho⟩ := h.findKey?_eq_some_iff.mp hk
  obtain ⟨m, -, hm⟩ := h.made type key _ ho
  contradiction

/-- A config is found under its own type only. -/
theorem Distinct.findKey?_elsewhere (h : r.Distinct) (ho : r.object? type key = some object)
    {other : String} (ht : other ≠ type) : r.findKey? other object.id = none := by
  apply Option.eq_none_iff_forall_ne_some.mpr
  intro k hk
  obtain ⟨value, hv⟩ := h.findKey?_eq_some_iff.mp hk
  have he := h.apart other k ⟨object.id, value⟩ type key object hv ho rfl
  exact ht (Prod.mk.inj he).1

section Resolve

variable {request : Request}

theorem resolve_of_given (r : Registry) (target : ObjectId) (h : request.fileKey ≠ "") :
    r.resolve request target = (request, []) := by
  have hk : ¬ request.fileKey.isEmpty = true := by simpa using h
  exact if_neg hk

theorem resolve_of_blank (r : Registry) (target : ObjectId) (h : request.fileKey = "") :
    let key := (r.findKey? request.typeName target).getD ""
    r.resolve request target = ({ request with fileKey := key },
      if key = "" then [] else [.resolvedKey key request.typeName]) := by
  have hf : r.fileKey request.typeName target request.fileKey =
      (r.findKey? request.typeName target).getD "" := by
    rw [fileKey, h]
    rfl
  simp only [resolve, hf, String.isEmpty_iff, if_pos h]

/-- A key that is not found stays blank. -/
theorem resolve_of_unfound {target : ObjectId} (h : request.fileKey = "")
    (hf : r.findKey? request.typeName target = none) : r.resolve request target = (request, []) := by
  have hr := r.resolve_of_blank target h
  simp only [hf, Option.getD_none, if_true] at hr
  rw [hr, ← h]

theorem resolve_of_found {target : ObjectId} (h : request.fileKey = "")
    (hf : r.findKey? request.typeName target = some key) :
    (r.resolve request target).1 = { request with fileKey := key } := by
  have hr := r.resolve_of_blank target h
  rw [hf, Option.getD_some] at hr
  rw [hr]

end Resolve

/-- How a registry finds the file keys of requests. -/
structure KnowsKeys (r : Registry) : Prop where
  /-- A key is found for the very object that is held under it, and for no other one. -/
  found : ∀ type target key, r.findKey? type target = some key ↔
    ∃ value, r.object? type key = some ⟨target, value⟩
  /-- So the key of a config is its own, not that of an equal one, and it is found under the type
  of the config only. -/
  own : ∀ type key object, r.object? type key = some object →
    r.findKey? type object.id = some key ∧
      ∀ other, other ≠ type → r.findKey? other object.id = none
  copies : ∀ type n, r.findKey? type (.loose n) = none
  given : ∀ request target, request.fileKey ≠ "" → r.resolve request target = (request, [])
  /-- Of a request with a blank key, nothing but the key changes. -/
  blank : ∀ request target, request.fileKey = "" →
    (∀ key, r.findKey? request.typeName target = some key →
      (r.resolve request target).1 = { request with fileKey := key }) ∧
    (r.findKey? request.typeName target = none → (r.resolve request target).1 = request)
  /-- A config is edited with a key that is found as with the same key given. -/
  edits : ∀ (s : Session) request key object,
    r.object? request.typeName key = some object → request.fileKey = "" →
      s.edit (r.resolve request object.id).1 object =
        s.edit { request with fileKey := key } object

/-- However a registry came about, it finds the keys of its configs by what objects they are. -/
theorem knowsKeys_build (acts : List Act) : (build acts).KnowsKeys := by
  have hd := distinct_build acts
  constructor
  · intro type target key
    exact hd.findKey?_eq_some_iff
  · intro type key object ho
    exact ⟨hd.findKey?_of_held ho, fun other ht => hd.findKey?_elsewhere ho ht⟩
  · intro type n
    exact hd.findKey?_loose type n
  · intro request target hk
    exact resolve_of_given _ target hk
  · intro request target hk
    constructor
    · intro key hf
      exact resolve_of_found hk hf
    · intro hf
      rw [resolve_of_unfound hk hf]
  · intro s request key object ho hk
    rw [resolve_of_found hk (hd.findKey?_of_held ho)]

/-- Of two equal configs, each has its own key. -/
example :
    let r := build [.insert "Unit" "a" .null, .insert "Unit" "b" .null]
    (r.object? "Unit" "b").map (fun object => r.findKey? "Unit" object.id) = some (some "b") :=
  rfl

end Registry

end FieldPatch
