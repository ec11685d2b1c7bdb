import FieldPatch.Collection.Table
import FieldPatch.Path.Segment
import FieldPatch.Value.Basic

namespace FieldPatch

/-- One step down: a field of a record, an element of a list, an entry of a map. -/
inductive Step where
  | field (name : String)
  | index (i : Nat)
  | key (key : Key)
deriving DecidableEq

def Step.text : Step → String
  | field name => name
  | index i => toString i
  | key k => k.text

/-- The steps from the root; the empty location is the root itself. -/
abbrev Location : Type := List Step

namespace Location

def segments (location : Location) : List String := location.map Step.text

def text (location : Location) : String := Segment.join location.segments

def child (location : Location) (step : Step) : Location := location ++ [step]

def parent? (location : Location) : Option Location :=
  if location.isEmpty then none else some location.dropLast

/-- The location is `other` or lies inside it. -/
def startsWith (location other : Location) : Bool := other.isPrefixOf location

/-- The location lies inside `other` and is not `other` itself. -/
def isInside (location other : Location) : Bool :=
  other.length < location.length && startsWith location other

/-- The index, key or field name of the last step, when the step is of that sort. -/
def lastIndex? (location : Location) : Option Nat :=
  match location.getLast? with
  | some (.index i) => some i
  | _ => none

def lastKey? (location : Location) : Option Key :=
  match location.getLast? with
  | some (.key k) => some k
  | _ => none

def lastField? (location : Location) : Option String :=
  match location.getLast? with
  | some (.field name) => some name
  | _ => none

theorem startsWith_iff (location other : Location) :
    location.startsWith other ↔ ∃ rest, location = other ++ rest := by
  simp only [startsWith, List.isPrefixOf_iff_prefix]
  constructor
  · rintro ⟨rest, rfl⟩
    exact ⟨rest, rfl⟩
  · rintro ⟨rest, rfl⟩
    exact List.prefix_append other rest

theorem isInside_iff (location other : Location) :
    location.isInside other ↔ ∃ step rest, location = other ++ step :: rest := by
  simp only [isInside, Bool.and_eq_true, decide_eq_true_eq, startsWith_iff]
  constructor
  · rintro ⟨hl, rest, rfl⟩
    cases rest with
    | nil => simp at hl
    | cons step rest => exact ⟨step, rest, rfl⟩
  · rintro ⟨step, rest, rfl⟩
    exact ⟨by simp, step :: rest, rfl⟩

end Location

namespace Value

variable {δ : Type}

def child? : Value δ → Step → Option (Value δ)
  | record _ fields, .field name => Table.get? name fields
  | list items, .index i => items[i]?
  | map entries, .key k => Table.get? k entries
  | _, _ => none

/-- The value with another child in the slot one step down; without such a slot nothing changes. -/
def setChild : Value δ → Step → Value δ → Value δ
  | record type fields, .field name, child => record type (Table.set name child fields)
  | list items, .index i, child => list (items.set i child)
  | map entries, .key k, child => map (Table.set k child entries)
  | value, _, _ => value

def at? (root : Value δ) : Location → Option (Value δ)
  | [] => some root
  | step :: rest =>
    match root.child? step with
    | some child => child.at? rest
    | none => none

/-- The root with `value` in the slot at a location, if there is such a slot. -/
def replace? (root : Value δ) : Location → Value δ → Option (Value δ)
  | [], value => some value
  | step :: rest, value =>
    match root.child? step with
    | some child => (child.replace? rest value).map fun changed => root.setChild step changed
    | none => none

/-- Sets a field of a record and gives back what it held. An unknown field is left alone. -/
def assign (record : Value δ) (name : String) (value : Value δ) : Option (Value δ) × Value δ :=
  (record.child? (.field name), record.setChild (.field name) value)

/-- Sets fields one after the other, and gives back what each of them held. -/
def assignAll (record : Value δ) : List (String × Value δ) → List (Option (Value δ)) × Value δ
  | [] => ([], record)
  | (name, value) :: rest =>
    let (old, changed) := record.assign name value
    let (olds, last) := changed.assignAll rest
    (old :: olds, last)

theorem child?_setChild {value : Value δ} {step : Step} {old : Value δ} (child : Value δ)
    (h : value.child? step = some old) : (value.setChild step child).child? step = some child := by
  cases value <;> cases step <;> simp_all [child?, setChild, Table.get?_set, List.getElem?_set]
  all_goals grind

theorem child?_setChild_of_ne (value child : Value δ) {step other : Step} (h : other ≠ step) :
    (value.setChild step child).child? other = value.child? other := by
  cases value <;> cases step <;> cases other <;>
    simp_all [child?, setChild, Table.get?_set] <;> grind

theorem at?_cons_eq_some {root slot : Value δ} {step : Step} {rest : Location}
    (h : root.at? (step :: rest) = some slot) :
    ∃ child, root.child? step = some child ∧ child.at? rest = some slot := by
  rw [at?] at h
  cases hc : root.child? step with
  | none => simp [hc] at h
  | some child =>
    rw [hc] at h
    exact ⟨child, rfl, h⟩

theorem replace?_cons_eq_some {root value changed : Value δ} {step : Step} {rest : Location}
    (h : root.replace? (step :: rest) value = some changed) :
    ∃ child inner, root.child? step = some child ∧ child.replace? rest value = some inner ∧
      changed = root.setChild step inner := by
  simp only [replace?] at h
  cases hc : root.child? step with
  | none => simp [hc] at h
  | some child =>
    simp only [hc, Option.map_eq_some_iff] at h
    obtain ⟨inner, hi, rfl⟩ := h
    exact ⟨child, inner, rfl, hi, rfl⟩

theorem at?_append (root : Value δ) (l m : Location) :
    root.at? (l ++ m) = (root.at? l).bind fun slot => slot.at? m := by
  induction l generalizing root with
  | nil => rfl
  | cons step rest ih =>
    simp only [List.cons_append, at?]
    cases root.child? step with
    | none => rfl
    | some child => exact ih child

/-- Writing and reading reach the same slots. -/
theorem isSome_replace? (root value : Value δ) (l : Location) :
    (root.replace? l value).isSome = (root.at? l).isSome := by
  induction l generalizing root with
  | nil => rfl
  | cons step rest ih =>
    simp only [replace?, at?]
    cases root.child? step with
    | none => rfl
    | some child => simp [ih child]

theorem at?_of_replace? {root value changed : Value δ} {l : Location}
    (h : root.replace? l value = some changed) : changed.at? l = some value := by
  induction l generalizing root changed with
  | nil => simp_all [replace?, at?]
  | cons step rest ih =>
    obtain ⟨child, inner, old, done, rfl⟩ := replace?_cons_eq_some h
    simp only [at?, child?_setChild inner old]
    exact ih done

theorem assignAll_append (record : Value δ) (first second : List (String × Value δ)) :
    let middle := record.assignAll first
    let last := middle.2.assignAll second
    record.assignAll (first ++ second) = (middle.1 ++ last.1, last.2) := by
  induction first generalizing record with
  | nil => rfl
  | cons call rest ih =>
    have hr := ih (record.assign call.1 call.2).2
    simp only [List.cons_append, assignAll]
    rw [hr]

theorem length_assignAll (record : Value δ) (calls : List (String × Value δ)) :
    (record.assignAll calls).1.length = calls.length := by
  induction calls generalizing record with
  | nil => rfl
  | cons call rest ih =>
    have hr := ih (record.assign call.1 call.2).2
    exact congrArg (· + 1) hr

end Value

end FieldPatch
