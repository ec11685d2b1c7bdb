namespace FieldPatch

/-- Entries in insertion order. -/
abbrev Table (κ α : Type) : Type := List (κ × α)

namespace Table

variable {κ α : Type} [DecidableEq κ]

def get? (key : κ) : List (κ × α) → Option α
  | [] => none
  | (k, a) :: rest => if k = key then some a else get? key rest

/-- The value at `key` becomes `a`, in place; without such a key nothing changes. -/
def set (key : κ) (a : α) : List (κ × α) → List (κ × α)
  | [] => []
  | (k, b) :: rest => if k = key then (k, a) :: rest else (k, b) :: set key a rest

/-- The value at `key` becomes `a`, in place, or as a new last entry. -/
def put (key : κ) (a : α) : List (κ × α) → List (κ × α)
  | [] => [(key, a)]
  | (k, b) :: rest => if k = key then (k, a) :: rest else (k, b) :: put key a rest

/-- The table without its entry at `key`, the others in their order. -/
def erase (key : κ) : List (κ × α) → List (κ × α)
  | [] => []
  | (k, b) :: rest => if k = key then rest else (k, b) :: erase key rest

def contains (key : κ) (table : List (κ × α)) : Bool := (get? key table).isSome

def keys (table : List (κ × α)) : List κ := table.map Prod.fst

def index? (key : κ) (table : List (κ × α)) : Option Nat :=
  (keys table).findIdx? (· = key)

theorem get?_put (key k : κ) (a : α) (table : List (κ × α)) :
    get? k (put key a table) = if key = k then some a else get? k table := by
  induction table with
  | nil => simp [put, get?]
  | cons e rest ih => grind [put, get?]

theorem get?_set (key k : κ) (a : α) (table : List (κ × α)) :
    get? k (set key a table) = if key = k then (get? k table).map fun _ => a else get? k table := by
  induction table with
  | nil => simp [set, get?]
  | cons e rest ih => grind [set, get?]

theorem keys_set (key : κ) (a : α) (table : List (κ × α)) :
    keys (set key a table) = keys table := by
  induction table with
  | nil => rfl
  | cons e rest ih => grind [set, keys]

theorem keys_put (key : κ) (a : α) (table : List (κ × α)) :
    keys (put key a table) = if key ∈ keys table then keys table else keys table ++ [key] := by
  induction table with
  | nil => simp [put, keys]
  | cons e rest ih => grind [put, keys]

theorem keys_erase (key : κ) (table : List (κ × α)) :
    keys (erase key table) = (keys table).erase key := by
  induction table with
  | nil => rfl
  | cons e rest ih => grind [erase, keys]

theorem get?_eq_none_iff (key : κ) (table : List (κ × α)) :
    get? key table = none ↔ key ∉ keys table := by
  induction table with
  | nil => simp [get?, keys]
  | cons e rest ih => grind [get?, keys]

theorem mem_of_get? {key : κ} {a : α} {table : List (κ × α)} (h : get? key table = some a) :
    (key, a) ∈ table := by
  induction table with
  | nil => simp [get?] at h
  | cons e rest ih => grind [get?]

theorem mem_set {key : κ} {a : α} {table : List (κ × α)} {e : κ × α} (h : e ∈ set key a table) :
    e ∈ table ∨ e = (key, a) := by
  induction table with
  | nil => simp [set] at h
  | cons first rest ih => grind [set]

theorem mem_of_mem_erase {key : κ} {table : List (κ × α)} {e : κ × α} (h : e ∈ erase key table) :
    e ∈ table := by
  induction table with
  | nil => simp [erase] at h
  | cons first rest ih => grind [erase]

theorem get?_append_of_eq_some {key : κ} {a : α} {table more : List (κ × α)}
    (h : get? key table = some a) : get? key (table ++ more) = some a := by
  induction table with
  | nil => simp [get?] at h
  | cons e rest ih => grind [get?]

theorem get?_append_self {key : κ} {a : α} {table : List (κ × α)} (h : get? key table = none) :
    get? key (table ++ [(key, a)]) = some a := by
  induction table with
  | nil => simp [get?]
  | cons e rest ih => grind [get?]

theorem get?_erase_of_ne {key k : κ} {table : List (κ × α)} (h : k ≠ key) :
    get? k (erase key table) = get? k table := by
  induction table with
  | nil => rfl
  | cons e rest ih => grind [erase, get?]

theorem get?_erase {key : κ} (k : κ) {table : List (κ × α)} (h : (keys table).Nodup) :
    get? k (erase key table) = if key = k then none else get? k table := by
  induction table with
  | nil => simp [erase, get?]
  | cons e rest ih =>
    have := get?_eq_none_iff k rest
    simp only [keys, List.map_cons, List.nodup_cons] at h
    grind [erase, get?, keys]

end Table

end FieldPatch
