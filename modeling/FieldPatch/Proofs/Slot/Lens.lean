import FieldPatch.Value.Location

namespace FieldPatch

theorem Table.set_set {κ α : Type} [DecidableEq κ] (key : κ) (a b : α) (table : List (κ × α)) :
    set key b (set key a table) = set key b table := by
  induction table with
  | nil => rfl
  | cons e rest ih => grind [set]

theorem Table.set_self {κ α : Type} [DecidableEq κ] {key : κ} {a : α} {table : List (κ × α)}
    (h : get? key table = some a) : set key a table = table := by
  induction table with
  | nil => rfl
  | cons e rest ih => grind [set, get?]

theorem Table.set_append_self {κ α : Type} [DecidableEq κ] {key : κ} {a b : α}
    {table : List (κ × α)} (h : get? key table = none) :
    set key b (table ++ [(key, a)]) = table ++ [(key, b)] := by
  induction table with
  | nil => simp [set]
  | cons e rest ih => grind [set, get?]

theorem Table.set_comm {κ α : Type} [DecidableEq κ] {key k : κ} {a b : α}
    {table : List (κ × α)} (h : key ≠ k) :
    set k b (set key a table) = set key a (set k b table) := by
  induction table with
  | nil => rfl
  | cons e rest ih => grind [set]

theorem set_insertIdx_self {α : Type} (l : List α) (i : Nat) (a b : α) :
    (l.insertIdx i a).set i b = l.insertIdx i b := by
  induction l generalizing i with
  | nil => cases i <;> simp
  | cons x l ih => cases i <;> simp [ih]

namespace Value

variable {δ : Type} {root changed : Value δ}

theorem setChild_setChild (value first second : Value δ) (step : Step) :
    (value.setChild step first).setChild step second = value.setChild step second := by
  cases value <;> cases step <;> simp [setChild, Table.set_set]

theorem setChild_self {value child : Value δ} {step : Step} (h : value.child? step = some child) :
    value.setChild step child = value := by
  cases value <;> cases step <;> simp_all [child?, setChild, Table.set_self]
  case list.index items i =>
    obtain ⟨hi, rfl⟩ := List.getElem?_eq_some_iff.mp h
    exact List.set_getElem_self hi

theorem at?_child {l : Location} {base : Value δ} (h : root.at? l = some base) (step : Step) :
    root.at? (l.child step) = base.child? step := by
  rw [Location.child, at?_append, h, Option.bind_some, at?]
  cases base.child? step with
  | none => rfl
  | some child => rfl

/-- Writing the value that is there changes nothing. -/
theorem replace?_self {l : Location} {value : Value δ} (h : root.at? l = some value) :
    root.replace? l value = some root := by
  induction l generalizing root with
  | nil => rw [replace?, Option.some.inj h]
  | cons step rest ih =>
    obtain ⟨child, hc, hrest⟩ := at?_cons_eq_some h
    simp only [replace?, hc, ih hrest, Option.map_some, setChild_self hc]

/-- A write inside the value at a location is a write of what it makes of that value. -/
theorem replace?_append {l m : Location} {base value : Value δ} (h : root.at? l = some base) :
    root.replace? (l ++ m) value =
      (base.replace? m value).bind fun whole => root.replace? l whole := by
  induction l generalizing root with
  | nil =>
    cases h
    simp [replace?]
  | cons step rest ih =>
    obtain ⟨child, hc, hrest⟩ := at?_cons_eq_some h
    simp only [List.cons_append, replace?, hc, ih hrest, Option.map_bind]
    rfl

theorem replace?_child {l : Location} {step : Step} {base value : Value δ}
    (h : root.at? l = some base) (hc : (base.child? step).isSome = true) :
    root.replace? (l.child step) value = root.replace? l (base.setChild step value) := by
  obtain ⟨child, hc⟩ := Option.isSome_iff_exists.mp hc
  rw [Location.child, replace?_append h]
  simp [replace?, hc]

/-- A write is not seen at locations that neither contain the written slot nor lie in it. -/
theorem at?_replace?_of_apart {l m : Location} {value : Value δ}
    (h : root.replace? l value = some changed) (hl : ¬ m.startsWith l) (hm : ¬ l.startsWith m) :
    changed.at? m = root.at? m := by
  induction l generalizing root changed m with
  | nil => exact absurd ((Location.startsWith_iff _ _).mpr ⟨m, rfl⟩) hl
  | cons step rest ih =>
    obtain ⟨child, inner, hc, hi, rfl⟩ := replace?_cons_eq_some h
    cases m with
    | nil => exact absurd ((Location.startsWith_iff _ _).mpr ⟨step :: rest, rfl⟩) hm
    | cons other m =>
      simp only [at?]
      by_cases he : other = step
      · subst he
        have hl' : ¬ Location.startsWith m rest := by simpa [Location.startsWith] using hl
        have hm' : ¬ Location.startsWith rest m := by simpa [Location.startsWith] using hm
        rw [child?_setChild inner hc, hc]
        exact ih hi hl' hm'
      · rw [child?_setChild_of_ne root inner he]

theorem setChild_comm (value a b : Value δ) {step other : Step} (h : step ≠ other) :
    (value.setChild step a).setChild other b = (value.setChild other b).setChild step a := by
  cases value <;> cases step <;> cases other <;> try rfl
  case record.field.field =>
    simp only [setChild]
    rw [Table.set_comm fun hc => h (by rw [hc])]
  case list.index.index =>
    simp only [setChild]
    rw [List.set_comm _ _ fun hc => h (by rw [hc])]
  case map.key.key =>
    simp only [setChild]
    rw [Table.set_comm fun hc => h (by rw [hc])]

/-- Two writes to slots apart from each other come to the same in either order. -/
theorem replace?_comm {l m : Location} {a b first second both both' : Value δ}
    (ha : root.replace? l a = some first) (hb : root.replace? m b = some second)
    (hab : first.replace? m b = some both) (hba : second.replace? l a = some both')
    (hl : ¬ l.startsWith m) (hm : ¬ m.startsWith l) : both = both' := by
  induction l generalizing root first second both both' m with
  | nil => exact absurd ((Location.startsWith_iff _ _).mpr ⟨m, rfl⟩) hm
  | cons step l ih =>
    cases m with
    | nil => exact absurd ((Location.startsWith_iff _ _).mpr ⟨step :: l, rfl⟩) hl
    | cons other m =>
      obtain ⟨child, first, hc, hfirst, rfl⟩ := replace?_cons_eq_some ha
      obtain ⟨child', second, hc', hsecond, rfl⟩ := replace?_cons_eq_some hb
      obtain ⟨middle, both, hg, hboth, rfl⟩ := replace?_cons_eq_some hab
      obtain ⟨middle', both', hg', hboth', rfl⟩ := replace?_cons_eq_some hba
      by_cases he : step = other
      · subst he
        cases hc.symm.trans hc'
        cases hg.symm.trans (child?_setChild first hc)
        cases hg'.symm.trans (child?_setChild second hc)
        have hl' : ¬ Location.startsWith l m := by simpa [Location.startsWith] using hl
        have hm' : ¬ Location.startsWith m l := by simpa [Location.startsWith] using hm
        rw [setChild_setChild, setChild_setChild, ih hfirst hsecond hboth hboth' hl' hm']
      · -- The writes go to different children, and each of them finds its own as it was.
        rw [child?_setChild_of_ne _ _ (Ne.symm he), hc'] at hg
        rw [child?_setChild_of_ne _ _ he, hc] at hg'
        cases hg
        cases hg'
        cases hsecond.symm.trans hboth
        cases hfirst.symm.trans hboth'
        exact setChild_comm root _ _ he

/-- Inside the written slot, the new value is read. -/
theorem at?_replace?_append {l : Location} {value : Value δ}
    (h : root.replace? l value = some changed) (m : Location) :
    changed.at? (l ++ m) = value.at? m := by
  rw [at?_append, at?_of_replace? h, Option.bind_some]

/-- A write inside the value that was just written is part of the first write. -/
theorem replace?_of_replace?_append {middle new value : Value δ} {l m : Location}
    (h : root.replace? l new = some middle) (hm : middle.replace? (l ++ m) value = some changed) :
    ∃ whole, new.replace? m value = some whole ∧ root.replace? l whole = some changed := by
  induction l generalizing root middle changed with
  | nil =>
    cases h
    exact ⟨changed, hm, rfl⟩
  | cons step rest ih =>
    obtain ⟨child, inner, hc, hi, rfl⟩ := replace?_cons_eq_some h
    obtain ⟨child', inner', hc', hi', rfl⟩ := replace?_cons_eq_some hm
    cases (child?_setChild inner hc).symm.trans hc'
    obtain ⟨whole, hw, hr⟩ := ih hi hi'
    refine ⟨whole, hw, ?_⟩
    rw [replace?, hc]
    simp only [hr, Option.map_some, setChild_setChild]

/-- Writing a value and then a child of it is one write of the value with this child. -/
theorem replace?_setChild {middle new value : Value δ} {l : Location} {step : Step}
    (h : root.replace? l new = some middle)
    (hm : middle.replace? (l.child step) value = some changed) :
    root.replace? l (new.setChild step value) = some changed := by
  obtain ⟨whole, hw, hr⟩ := replace?_of_replace?_append h hm
  obtain ⟨child, inner, -, hi, rfl⟩ := replace?_cons_eq_some hw
  cases hi
  exact hr

end Value

end FieldPatch
