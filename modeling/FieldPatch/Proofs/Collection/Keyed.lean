import FieldPatch.Collection.Table
import Mathlib.Data.List.Dedup

namespace FieldPatch.Table

variable {κ α : Type} [DecidableEq κ] {key : κ} {a : α} {table entries : List (κ × α)}

theorem get?_map {β : Type} (f : α → β) (key : κ) (table : List (κ × α)) :
    get? key (table.map fun e => (e.1, f e.2)) = (get? key table).map f := by
  induction table with
  | nil => rfl
  | cons e rest ih => grind [get?]

/-- Without such a key there is nothing to change. -/
theorem set_of_absent (h : get? key table = none) (a : α) : set key a table = table := by
  induction table with
  | nil => rfl
  | cons e rest ih => grind [set, get?]

theorem get?_eq_some_iff (h : (keys table).Nodup) : get? key table = some a ↔ (key, a) ∈ table := by
  refine ⟨mem_of_get?, fun hm => ?_⟩
  induction table with
  | nil => contradiction
  | cons e rest ih =>
    obtain ⟨hn, hr⟩ := List.nodup_cons.mp h
    rw [get?]
    rcases List.mem_cons.mp hm with rfl | hm
    · exact if_pos rfl
    · have hk : e.1 ≠ key := fun hc => hn (hc ▸ List.mem_map_of_mem hm)
      rw [if_neg hk]
      exact ih hr hm

theorem nodup_keys_put (h : (keys table).Nodup) (key : κ) (a : α) :
    (keys (put key a table)).Nodup := by
  rw [keys_put]
  split
  · exact h
  · rename_i hn
    exact List.nodup_append.mpr ⟨h, List.pairwise_singleton _ key, fun k hk l hl he =>
      hn (List.mem_singleton.mp hl ▸ he ▸ hk)⟩

section Index

theorem index?_cons (k : κ) (b : α) (rest : List (κ × α)) :
    index? key ((k, b) :: rest) = if k = key then some 0 else (index? key rest).map (· + 1) := by
  simp [index?, keys, List.findIdx?_cons]

/-- A value is found at the place where its key stands. -/
theorem get?_eq_index? (key : κ) (table : List (κ × α)) :
    get? key table = (index? key table).bind fun i => (table.map Prod.snd)[i]? := by
  induction table with
  | nil => rfl
  | cons e rest ih =>
    rw [get?, index?_cons]
    by_cases hk : e.1 = key
    · rw [if_pos hk, if_pos hk]
      rfl
    · rw [if_neg hk, if_neg hk, ih, Option.bind_map]
      rfl

theorem index?_eq_some_iff (h : (keys table).Nodup) {i : Nat} :
    index? key table = some i ↔ (keys table)[i]? = some key := by
  induction table generalizing i with
  | nil => simp [index?, keys]
  | cons e rest ih =>
    obtain ⟨hn, hr⟩ := List.nodup_cons.mp h
    have hk : keys (e :: rest) = e.1 :: keys rest := rfl
    rw [index?_cons, hk]
    cases i with
    | zero =>
      rw [List.getElem?_cons_zero, Option.some.injEq]
      split
      · rename_i he
        simp [he]
      · rename_i he
        simp [he]
    | succ i =>
      rw [List.getElem?_cons_succ, ← ih hr]
      split
      · rename_i he
        have hi : index? key rest ≠ some i := fun hc =>
          hn (he ▸ List.mem_of_getElem? ((ih hr).mp hc))
        simp [hi]
      · simp

end Index

section Middle

variable {b : α} {before before' after after' : List (κ × α)}

theorem get?_middle (h : key ∉ keys before) (a : α) (after : List (κ × α)) :
    get? key (before ++ (key, a) :: after) = some a := by
  induction before with
  | nil => exact if_pos rfl
  | cons e rest ih =>
    obtain ⟨hn, hr⟩ := not_or.mp (mt List.mem_cons.mpr h)
    exact (if_neg (Ne.symm hn)).trans (ih hr)

theorem set_middle (h : key ∉ keys before) (a b : α) (after : List (κ × α)) :
    set key b (before ++ (key, a) :: after) = before ++ (key, b) :: after := by
  induction before with
  | nil => exact if_pos rfl
  | cons e rest ih =>
    obtain ⟨hn, hr⟩ := not_or.mp (mt List.mem_cons.mpr h)
    exact (if_neg (Ne.symm hn)).trans (congrArg (e :: ·) (ih hr))

theorem index?_middle (h : key ∉ keys before) (a : α) (after : List (κ × α)) :
    index? key (before ++ (key, a) :: after) = some before.length := by
  induction before with
  | nil => exact (index?_cons key a after).trans (if_pos rfl)
  | cons e rest ih =>
    obtain ⟨hn, hr⟩ := not_or.mp (mt List.mem_cons.mpr h)
    rw [List.cons_append, index?_cons, if_neg (Ne.symm hn), ih hr]
    rfl

/-- The entry that is looked up is the first of its key. -/
theorem exists_middle (h : get? key table = some a) :
    ∃ before after, key ∉ keys before ∧ table = before ++ (key, a) :: after := by
  induction table with
  | nil => contradiction
  | cons e rest ih =>
    rw [get?] at h
    split at h
    · rename_i hk
      cases h
      exact ⟨[], rest, List.not_mem_nil, by rw [← hk]; rfl⟩
    · rename_i hk
      obtain ⟨before, after, hn, rfl⟩ := ih h
      exact ⟨e :: before, after, List.not_mem_cons_of_ne_of_not_mem (Ne.symm hk) hn, rfl⟩

theorem middle_inj (h : key ∉ keys before) (h' : key ∉ keys before')
    (he : before ++ (key, a) :: after = before' ++ (key, b) :: after') :
    before = before' ∧ a = b ∧ after = after' := by
  have hi := index?_middle h a after
  rw [he, index?_middle h' b after'] at hi
  obtain ⟨hb, hr⟩ := List.append_inj he (Option.some.inj hi).symm
  cases hr
  exact ⟨hb, rfl, rfl⟩

theorem set_eq_zip {i : Nat} (h : index? key table = some i) (a : α) :
    set key a table = (keys table).zip ((table.map Prod.snd).set i a) := by
  induction table generalizing i with
  | nil => contradiction
  | cons e rest ih =>
    rw [index?_cons] at h
    rw [set]
    split at h
    · rename_i hk
      cases h
      have hr : (keys rest).zip (rest.map Prod.snd) = rest := (List.zip_of_prod rfl rfl).symm
      rw [if_pos hk, List.map_cons, List.set_cons_zero, keys, List.map_cons, List.zip_cons_cons]
      exact congrArg ((e.1, a) :: ·) hr.symm
    · rename_i hk
      obtain ⟨j, hj, rfl⟩ := Option.map_eq_some_iff.mp h
      rw [if_neg hk, ih hj]
      rfl

end Middle

section Fill

/-- The table after some entries were put into it, one after the other. -/
def fill (table entries : List (κ × α)) : List (κ × α) :=
  entries.foldl (fun t e => put e.1 e.2 t) table

theorem fill_append (table first second : List (κ × α)) :
    fill table (first ++ second) = fill (fill table first) second := List.foldl_append

theorem fill_cons (table : List (κ × α)) (e : κ × α) (rest : List (κ × α)) :
    fill table (e :: rest) = fill (put e.1 e.2 table) rest := rfl

theorem nodup_keys_fill (h : (keys table).Nodup) (entries : List (κ × α)) :
    (keys (fill table entries)).Nodup := by
  induction entries generalizing table with
  | nil => exact h
  | cons e rest ih => exact ih (nodup_keys_put h e.1 e.2)

theorem nodup_keys_filled (entries : List (κ × α)) : (keys (fill [] entries)).Nodup := by
  have hn : (keys ([] : List (κ × α))).Nodup := List.nodup_nil
  exact nodup_keys_fill hn entries

theorem isPrefix_keys_put (key : κ) (a : α) (table : List (κ × α)) :
    keys table <+: keys (put key a table) := by
  rw [keys_put]
  split
  · exact List.prefix_refl _
  · exact List.prefix_append _ _

theorem isPrefix_keys_fill (table entries : List (κ × α)) :
    keys table <+: keys (fill table entries) := by
  induction entries generalizing table with
  | nil => exact List.prefix_refl _
  | cons e rest ih => exact (isPrefix_keys_put e.1 e.2 table).trans (ih _)

theorem mem_keys_put (key k : κ) (a : α) (table : List (κ × α)) :
    k ∈ keys (put key a table) ↔ k ∈ keys table ∨ k = key := by
  rw [keys_put]
  split
  · rename_i hk
    constructor
    · exact Or.inl
    · rintro (h | rfl)
      · exact h
      · exact hk
  · rw [List.mem_append, List.mem_singleton]

theorem mem_keys_fill (k : κ) (table entries : List (κ × α)) :
    k ∈ keys (fill table entries) ↔ k ∈ keys table ∨ k ∈ keys entries := by
  induction entries generalizing table with
  | nil => simp [fill, keys]
  | cons e rest ih =>
    have hk : k ∈ keys (e :: rest) ↔ k = e.1 ∨ k ∈ keys rest := List.mem_cons
    rw [fill_cons, ih, mem_keys_put, hk, or_assoc]

theorem get?_fill_of_not_mem (h : key ∉ keys entries) (table : List (κ × α)) :
    get? key (fill table entries) = get? key table := by
  induction entries generalizing table with
  | nil => rfl
  | cons e rest ih =>
    obtain ⟨hn, hr⟩ := not_or.mp (mt List.mem_cons.mpr h)
    rw [fill_cons, ih hr, get?_put, if_neg (Ne.symm hn)]

variable {before after : List (κ × α)}

/-- Of the values put under a key, the last one is found. -/
theorem get?_fill_last (h : key ∉ keys after) (table : List (κ × α)) :
    get? key (fill table (before ++ (key, a) :: after)) = some a := by
  rw [fill_append, fill_cons, get?_fill_of_not_mem h, get?_put, if_pos rfl]

theorem length_keys_fill (entries : List (κ × α)) :
    (keys (fill [] entries)).length = (keys entries).dedup.length := by
  have hn := nodup_keys_filled entries
  have hm : ∀ k, k ∈ keys (fill [] entries) ↔ k ∈ (keys entries).dedup := by
    intro k
    rw [mem_keys_fill, List.mem_dedup]
    exact or_iff_right List.not_mem_nil
  exact ((List.perm_ext_iff_of_nodup hn (List.nodup_dedup _)).mpr hm).length_eq

/-- A key stands behind the keys that were put before its first entry, each counted once. -/
theorem index?_fill_first (h : key ∉ keys before) :
    index? key (fill [] (before ++ (key, a) :: after)) = some (keys before).dedup.length := by
  have hn := nodup_keys_filled (before ++ (key, a) :: after)
  have hb : key ∉ keys (fill [] before) := by
    rw [mem_keys_fill]
    exact not_or.mpr ⟨List.not_mem_nil, h⟩
  have hk : keys (put key a (fill [] before)) = keys (fill [] before) ++ [key] := by
    rw [keys_put, if_neg hb]
  obtain ⟨rest, hr⟩ := isPrefix_keys_fill (put key a (fill [] before)) after
  rw [index?_eq_some_iff hn, fill_append, fill_cons, ← hr, hk, ← length_keys_fill]
  simp

end Fill

end FieldPatch.Table
