import FieldPatch.Proofs.Value.Parts
import FieldPatch.Schema.RecordType
import FieldPatch.Value.Equality
import Mathlib.Data.List.Forall2
import Mathlib.Data.List.Perm.Subperm

namespace FieldPatch

section Lists

variable {α β γ : Type} {R : α → β → Prop}

theorem forall₂_of_mem {S : α → β → Prop} {xs : List α} {ys : List β} (h : List.Forall₂ R xs ys)
    (hs : ∀ x ∈ xs, ∀ y ∈ ys, R x y → S x y) : List.Forall₂ S xs ys := by
  induction h with
  | nil => exact .nil
  | cons first _ ih =>
    refine .cons (hs _ List.mem_cons_self _ List.mem_cons_self first) (ih fun x hx y hy => ?_)
    exact hs x (List.mem_cons_of_mem _ hx) y (List.mem_cons_of_mem _ hy)

theorem forall₂_trans {S : β → γ → Prop} {T : α → γ → Prop} {xs : List α} {ys : List β}
    {zs : List γ} (h : List.Forall₂ R xs ys) (h' : List.Forall₂ S ys zs)
    (ht : ∀ x ∈ xs, ∀ y z, R x y → S y z → T x z) : List.Forall₂ T xs zs := by
  induction h generalizing zs with
  | nil =>
    cases h'
    exact .nil
  | cons first _ ih =>
    cases h' with
    | cons first' rest' =>
      refine .cons (ht _ List.mem_cons_self _ _ first first') (ih rest' fun x hx => ?_)
      exact ht x (List.mem_cons_of_mem _ hx)

/-- One element of the list gives way to another one that is related to the same. -/
theorem forall₂_replace {before after : List α} {x x' : α} {ys : List β}
    (h : List.Forall₂ R (before ++ x :: after) ys) (hx : ∀ y, R x y → R x' y) :
    List.Forall₂ R (before ++ x' :: after) ys := by
  induction before generalizing ys with
  | nil =>
    cases h with
    | cons first rest => exact .cons (hx _ first) rest
  | cons b before ih =>
    cases h with
    | cons first rest => exact .cons first (ih rest)

end Lists

namespace Binary32

variable {x y z : Binary32}

theorem same_symm (h : x.same y = true) : y.same x = true := by
  simp only [same, Bool.and_eq_true, Bool.or_eq_true, Bool.not_eq_true', beq_iff_eq] at h ⊢
  grind

theorem same_trans (h : x.same y = true) (h' : y.same z = true) : x.same z = true := by
  simp only [same, Bool.and_eq_true, Bool.or_eq_true, Bool.not_eq_true', beq_iff_eq] at h h' ⊢
  grind

theorem same_self_iff : x.same x = true ↔ x.isNaN = false := by
  simp [same]

end Binary32

theorem sameNumbers_iff {xs ys : List Binary32} :
    sameNumbers xs ys = true ↔ List.Forall₂ (fun x y => x.same y = true) xs ys := by
  induction xs generalizing ys with
  | nil =>
    cases ys with
    | nil => simp [sameNumbers]
    | cons y ys => simp [sameNumbers]
  | cons x xs ih =>
    cases ys with
    | nil => simp [sameNumbers]
    | cons y ys => simp [sameNumbers, ih]

theorem StringSet.same_iff {s t : StringSet} : s.same t = true ↔ s.members.Perm t.members := by
  have hs : s.same t = true ↔
      s.members.length = t.members.length ∧ s.members ⊆ t.members := by
    simp [same, size, contains, List.subset_def]
  rw [hs]
  constructor
  · rintro ⟨hl, hm⟩
    exact (List.subperm_of_subset s.nodup hm).perm_of_length_le (Nat.le_of_eq hl.symm)
  · intro hp
    exact ⟨hp.length_eq, hp.subset⟩

namespace Table

variable {κ α β : Type} [DecidableEq κ] {R : α → β → Prop} {xs : List (κ × α)} {ys : List (κ × β)}

/-- Each value of the one table is related to the one that the other table has under its key. -/
def Finds (R : α → β → Prop) (xs : List (κ × α)) (ys : List (κ × β)) : Prop :=
  ∀ e ∈ xs, ∃ b, get? e.1 ys = some b ∧ R e.2 b

/-- Of two tables of one size that have distinct keys, each has the keys of the other if one does,
so what is looked up from one side is looked up from the other. -/
theorem Finds.symm (h : Finds R xs ys) (hx : (keys xs).Nodup) (hy : (keys ys).Nodup)
    (hl : xs.length = ys.length) : Finds (fun b a => R a b) ys xs := by
  have hs : keys xs ⊆ keys ys := by
    intro key hk
    obtain ⟨e, he, rfl⟩ := List.mem_map.mp hk
    obtain ⟨b, hb, -⟩ := h e he
    exact List.mem_map_of_mem (mem_of_get? hb)
  have hp : (keys xs).Perm (keys ys) := by
    apply (List.subperm_of_subset hx hs).perm_of_length_le
    simp [keys, hl]
  intro e he
  have hk : e.1 ∈ keys xs := hp.mem_iff.mpr (List.mem_map_of_mem he)
  obtain ⟨e', he', hk'⟩ := List.mem_map.mp hk
  obtain ⟨b, hb, hr⟩ := h e' he'
  have hb' : get? e'.1 ys = some e.2 := (get?_eq_some_iff hy).mpr (hk' ▸ he)
  obtain rfl : e.2 = b := Option.some.inj (hb'.symm.trans hb)
  have ha : get? e'.1 xs = some e'.2 := (get?_eq_some_iff hx).mpr he'
  exact ⟨e'.2, hk' ▸ ha, hr⟩

end Table

namespace Value

variable {δ : Type} [BEq δ]

/-- The values are of one sort and agree in what they hold themselves, and their parts are related:
place by place in lists and records, under the same key in maps. -/
inductive Agrees (R : Value δ → Value δ → Prop) : Value δ → Value δ → Prop
  | null : Agrees R null null
  | string (text : String) : Agrees R (string text) (string text)
  | bool (flag : Bool) : Agrees R (bool flag) (bool flag)
  | int (number : Int32) : Agrees R (int number) (int number)
  | float {x y : Binary32} (number : x.same y = true) : Agrees R (float x) (float y)
  | vector {dim : Dim} {v w : Vector Binary32 dim.size}
      (numbers : List.Forall₂ (fun x y => x.same y = true) v.toList w.toList) :
      Agrees R (vector dim v) (vector dim w)
  | color {c d : Color}
      (numbers : List.Forall₂ (fun x y => x.same y = true) c.channels d.channels) :
      Agrees R (color c) (color d)
  | enum (member : String) : Agrees R (enum member) (enum member)
  | stringSet {s t : StringSet} (members : s.members.Perm t.members) :
      Agrees R (stringSet s) (stringSet t)
  | list {xs ys : List (Value δ)} (items : List.Forall₂ R xs ys) : Agrees R (list xs) (list ys)
  | map {xs ys : List (Key × Value δ)} (size : xs.length = ys.length)
      (entries : Table.Finds R xs ys) : Agrees R (map xs) (map ys)
  | record {t u : δ} {xs ys : List (String × Value δ)} (types : (t == u) = true)
      (fields : List.Forall₂ R (xs.map Prod.snd) (ys.map Prod.snd)) :
      Agrees R (record t xs) (record u ys)

theorem sameItems_iff {xs ys : List (Value δ)} :
    sameItems xs ys = true ↔ List.Forall₂ (fun x y => x.same y = true) xs ys := by
  induction xs generalizing ys with
  | nil =>
    cases ys with
    | nil => simp [sameItems]
    | cons y ys => simp [sameItems]
  | cons x xs ih =>
    cases ys with
    | nil => simp [sameItems]
    | cons y ys => simp [sameItems, ih]

theorem sameFields_iff {xs ys : List (String × Value δ)} : sameFields xs ys = true ↔
    List.Forall₂ (fun x y => x.same y = true) (xs.map Prod.snd) (ys.map Prod.snd) := by
  induction xs generalizing ys with
  | nil =>
    cases ys with
    | nil => simp [sameFields]
    | cons y ys => simp [sameFields]
  | cons x xs ih =>
    cases ys with
    | nil => simp [sameFields]
    | cons y ys =>
      rw [sameFields, Bool.and_eq_true, ih, List.map_cons, List.map_cons, List.forall₂_cons]

theorem sameEntries_iff {xs ys : List (Key × Value δ)} :
    sameEntries xs ys = true ↔ Table.Finds (fun x y => x.same y = true) xs ys := by
  induction xs with
  | nil => simp [sameEntries, Table.Finds]
  | cons e xs ih =>
    have hf : Table.Finds (fun x y => x.same y = true) (e :: xs) ys ↔
        (∃ y, Table.get? e.1 ys = some y ∧ e.2.same y = true) ∧
          Table.Finds (fun x y => x.same y = true) xs ys := List.forall_mem_cons
    rw [sameEntries, Bool.and_eq_true, ih, hf]
    cases Table.get? e.1 ys with
    | none => simp
    | some y => simp

/-- Two values are equal when they agree and their parts are equal. -/
theorem same_iff {a b : Value δ} :
    a.same b = true ↔ Agrees (fun x y => x.same y = true) a b := by
  constructor
  · intro h
    rw [same.eq_def] at h
    split at h
    · exact .null
    · exact beq_iff_eq.mp h ▸ .string _
    · exact beq_iff_eq.mp h ▸ .bool _
    · exact beq_iff_eq.mp h ▸ .int _
    · exact .float h
    · obtain ⟨hd, hn⟩ := Bool.and_eq_true_iff.mp h
      obtain rfl := beq_iff_eq.mp hd
      exact .vector (sameNumbers_iff.mp hn)
    · exact .color (sameNumbers_iff.mp h)
    · exact beq_iff_eq.mp h ▸ .enum _
    · exact .stringSet (StringSet.same_iff.mp h)
    · exact .list (sameItems_iff.mp h)
    · obtain ⟨hl, he⟩ := Bool.and_eq_true_iff.mp h
      exact .map (beq_iff_eq.mp hl) (sameEntries_iff.mp he)
    · obtain ⟨ht, hf⟩ := Bool.and_eq_true_iff.mp h
      exact .record ht (sameFields_iff.mp hf)
    · contradiction
  · intro h
    cases h with
    | null => simp [same]
    | string text => simp [same]
    | bool flag => simp [same]
    | int number => simp [same]
    | float number => simpa [same] using number
    | vector numbers => simpa [same] using sameNumbers_iff.mpr numbers
    | color numbers => simpa [same] using sameNumbers_iff.mpr numbers
    | enum member => simp [same]
    | stringSet members => simpa [same] using StringSet.same_iff.mpr members
    | list items => simpa [same] using sameItems_iff.mpr items
    | map size entries => simpa [same, size] using sameEntries_iff.mpr entries
    | record types fields => simpa [same, types] using sameFields_iff.mpr fields

section Laws

variable [EquivBEq δ] {a b c : Value δ}

theorem same_symm (ha : a.Keyed) (hb : b.Keyed) (h : a.same b = true) : b.same a = true := by
  induction a using inductParts generalizing b with
  | whole a ih =>
    rw [same_iff] at h ⊢
    cases h with
    | null => exact .null
    | string text => exact .string text
    | bool flag => exact .bool flag
    | int number => exact .int number
    | float number => exact .float (Binary32.same_symm number)
    | vector numbers => exact .vector (numbers.imp fun _ _ => Binary32.same_symm).flip
    | color numbers => exact .color (numbers.imp fun _ _ => Binary32.same_symm).flip
    | enum member => exact .enum member
    | stringSet members => exact .stringSet members.symm
    | list items =>
      refine .list (forall₂_of_mem items fun x hx y hy hr => ?_).flip
      exact ih x hx (ha.of_part hx) (hb.of_part hy) hr
    | @map xs ys size entries =>
      have hf : Table.Finds (fun y x => y.same x = true) ys xs := by
        intro e he
        obtain ⟨x, hg, hr⟩ := entries.symm ha.nodup hb.nodup size e he
        have hx : x ∈ (map xs).parts := List.mem_map_of_mem (Table.mem_of_get? hg)
        have hy : e.2 ∈ (map ys).parts := List.mem_map_of_mem he
        exact ⟨x, hg, ih x hx (ha.of_part hx) (hb.of_part hy) hr⟩
      exact .map size.symm hf
    | record types fields =>
      refine .record (BEq.symm types) (forall₂_of_mem fields fun x hx y hy hr => ?_).flip
      exact ih x hx (ha.of_part hx) (hb.of_part hy) hr

theorem same_comm (ha : a.Keyed) (hb : b.Keyed) : a.same b = b.same a := by
  rw [Bool.eq_iff_iff]
  exact ⟨same_symm ha hb, same_symm hb ha⟩

theorem same_trans (h : a.same b = true) (h' : b.same c = true) : a.same c = true := by
  induction a using inductParts generalizing b c with
  | whole a ih =>
    rw [same_iff] at h h' ⊢
    cases h with
    | null => exact h'
    | string text => exact h'
    | bool flag => exact h'
    | int number => exact h'
    | float number =>
      cases h' with
      | float number' => exact .float (Binary32.same_trans number number')
    | vector numbers =>
      cases h' with
      | vector numbers' =>
        exact .vector (forall₂_trans numbers numbers' fun _ _ _ _ => Binary32.same_trans)
    | color numbers =>
      cases h' with
      | color numbers' =>
        exact .color (forall₂_trans numbers numbers' fun _ _ _ _ => Binary32.same_trans)
    | enum member => exact h'
    | stringSet members =>
      cases h' with
      | stringSet members' => exact .stringSet (members.trans members')
    | list items =>
      cases h' with
      | list items' => exact .list (forall₂_trans items items' fun x hx _ _ hr hr' => ih x hx hr hr')
    | map size entries =>
      cases h' with
      | map size' entries' =>
        refine .map (size.trans size') fun e he => ?_
        obtain ⟨y, hy, hr⟩ := entries e he
        obtain ⟨z, hz, hr'⟩ := entries' (e.1, y) (Table.mem_of_get? hy)
        exact ⟨z, hz, ih e.2 (List.mem_map_of_mem he) hr hr'⟩
    | record types fields =>
      cases h' with
      | record types' fields' =>
        refine .record (BEq.trans types types') ?_
        exact forall₂_trans fields fields' fun x hx _ _ hr hr' => ih x hx hr hr'

/-- A value is equal to itself when its own numbers and its parts are. -/
theorem same_self_step (ha : a.Keyed) : a.same a = true ↔
    (∀ x ∈ a.numbers, x.isNaN = false) ∧ ∀ part ∈ a.parts, part.same part = true := by
  have hn (xs : List Binary32) : sameNumbers xs xs = true ↔ ∀ x ∈ xs, x.isNaN = false := by
    simp only [sameNumbers_iff, List.forall₂_same, Binary32.same_self_iff]
  cases a with
  | float x => simp [same, numbers, parts, Binary32.same_self_iff]
  | vector dim components => simp [same, numbers, parts, hn]
  | color c => simp [same, numbers, parts, hn]
  | stringSet s => simp [same, numbers, parts, StringSet.same_iff]
  | list xs => simp [same, numbers, parts, sameItems_iff, List.forall₂_same]
  | map xs =>
    have hg : ∀ e ∈ xs, Table.get? e.1 xs = some e.2 := fun e he =>
      (Table.get?_eq_some_iff ha.nodup).mpr he
    have hf : Table.Finds (fun x y => x.same y = true) xs xs ↔ ∀ e ∈ xs, e.2.same e.2 = true := by
      constructor
      · intro h e he
        obtain ⟨x, hx, hr⟩ := h e he
        rwa [← Option.some.inj ((hg e he).symm.trans hx)] at hr
      · intro h e he
        exact ⟨e.2, hg e he, h e he⟩
    have hp : (∀ part ∈ xs.map Prod.snd, part.same part = true) ↔ ∀ e ∈ xs, e.2.same e.2 = true :=
      List.forall_mem_map
    simp only [same, beq_self_eq_true, Bool.true_and, sameEntries_iff, hf, numbers, parts, hp,
      List.not_mem_nil, false_imp_iff, implies_true, true_and]
  | record type xs =>
    have hf : sameFields xs xs = true ↔ ∀ part ∈ xs.map Prod.snd, part.same part = true := by
      rw [sameFields_iff, List.forall₂_same]
    simp [same, numbers, parts, hf]
  | _ => simp [same, numbers, parts]

theorem same_self_iff (ha : a.Keyed) :
    a.same a = true ↔ ∀ x, a.HasNumber x → x.isNaN = false := by
  induction a using inductParts with
  | whole a ih =>
    rw [same_self_step ha]
    constructor
    · rintro ⟨hn, hp⟩ x hx
      cases hx with
      | own mem => exact hn x mem
      | inside mem h => exact (ih _ mem (ha.of_part mem)).mp (hp _ mem) x h
    · intro h
      constructor
      · intro x hx
        exact h x (.own hx)
      · intro part hp
        exact (ih part hp (ha.of_part hp)).mpr fun x hx => h x (.inside hp hx)

end Laws

section Order

variable {a a' b b' c : Value δ}

theorem Rearranges.same_left (h : a.Rearranges a') (hs : a.same c = true) : a'.same c = true := by
  induction h generalizing c with
  | members order =>
    rw [same_iff] at hs ⊢
    cases hs with
    | stringSet members => exact .stringSet (order.symm.trans members)
  | entries order =>
    rw [same_iff] at hs ⊢
    cases hs with
    | map size entries =>
      refine .map (order.length_eq.symm.trans size) fun e he => ?_
      exact entries e (order.mem_iff.mpr he)
  | item _ ih =>
    rw [same_iff] at hs ⊢
    cases hs with
    | list items => exact .list (forall₂_replace items fun _ => ih)
  | @entry before after key x y _ ih =>
    rw [same_iff] at hs ⊢
    cases hs with
    | @map _ zs size entries =>
      have hl : (before ++ (key, y) :: after).length = zs.length := by
        simpa using size
      refine .map hl fun e he => ?_
      have hm : e = (key, y) ∨ e ∈ before ++ (key, x) :: after := by
        simp only [List.mem_append, List.mem_cons] at he ⊢
        tauto
      rcases hm with rfl | hm
      · obtain ⟨z, hz, hr⟩ := entries (key, x) (by simp)
        exact ⟨z, hz, ih hr⟩
      · exact entries e hm
  | field _ ih =>
    rw [same_iff] at hs ⊢
    cases hs with
    | record types fields =>
      rw [List.map_append, List.map_cons] at fields
      refine .record types ?_
      rw [List.map_append, List.map_cons]
      exact forall₂_replace fields fun _ => ih

theorem Rearranges.same_eq (h : a.Rearranges a') (c : Value δ) : a'.same c = a.same c := by
  rw [Bool.eq_iff_iff]
  exact ⟨h.symm.same_left, h.same_left⟩

theorem Rearranged.same_eq (h : a.Rearranged a') (c : Value δ) : a'.same c = a.same c := by
  induction h with
  | refl => rfl
  | tail _ last ih => exact (last.same_eq c).trans ih

/-- In what order sets and maps hold their contents makes no difference to what is equal. -/
theorem Rearranged.same_eq_same [EquivBEq δ] (h : a.Rearranged a') (h' : b.Rearranged b')
    (ha : a.Keyed) (hb : b.Keyed) : a'.same b' = a.same b := by
  have ha' := h.keyed ha
  have hb' := h'.keyed hb
  calc
    a'.same b' = a.same b' := h.same_eq b'
    _ = b'.same a := same_comm ha hb'
    _ = b.same a := h'.same_eq a
    _ = a.same b := same_comm hb ha

end Order

end Value

theorem RecordType.beq_iff {t u : RecordType} : (t == u) = true ↔ t.name = u.name := by
  change (t.name == u.name) = true ↔ t.name = u.name
  exact beq_iff_eq

instance : EquivBEq RecordType where
  rfl := RecordType.beq_iff.mpr rfl
  symm h := RecordType.beq_iff.mpr (RecordType.beq_iff.mp h).symm
  trans h h' := RecordType.beq_iff.mpr ((RecordType.beq_iff.mp h).trans (RecordType.beq_iff.mp h'))

namespace Value

/-- Equality compares contents. It goes both ways and from one value on to the next, it fails on a
value with a NaN in it and on no other, and it takes the orders of lists and of records into account
but not those of sets and of maps. -/
theorem same_compares_contents (a b c : Value RecordType) (ha : a.Keyed) (hb : b.Keyed) :
    (a.same b = true → b.same a = true) ∧
    (a.same b = true → b.same c = true → a.same c = true) ∧
    (a.same a = true ↔ ∀ x, a.HasNumber x → x.isNaN = false) ∧
    (∀ a' b', a.Rearranged a' → b.Rearranged b' → a'.same b' = a.same b) ∧
    (∀ xs ys, a = list xs → b = list ys →
      (a.same b = true ↔ List.Forall₂ (fun x y => x.same y = true) xs ys)) ∧
    (∀ t u xs ys, a = record t xs → b = record u ys →
      (a.same b = true ↔ t.name = u.name ∧
        List.Forall₂ (fun x y => x.same y = true) (xs.map Prod.snd) (ys.map Prod.snd))) := by
  refine ⟨same_symm ha hb, same_trans, same_self_iff ha, ?_, ?_, ?_⟩
  · intro a' b' h h'
    exact h.same_eq_same h' ha hb
  · rintro xs ys rfl rfl
    rw [same, sameItems_iff]
  · rintro t u xs ys rfl rfl
    rw [same, Bool.and_eq_true, RecordType.beq_iff, sameFields_iff]

/-- A record with a set and a map in it, and the same with the two the other way round. -/
theorem same_compares_contents_reordered :
    let slots := [(.str "hull", float .one), (.int 2, list [null])]
    let slots' := [(.int 2, list [null]), (.str "hull", float .one)]
    let a := record (RecordType.named "Unit")
      [("tags", stringSet ⟨["fast", "shy"], by decide⟩), ("slots", map slots)]
    let b := record (RecordType.named "Unit")
      [("tags", stringSet ⟨["shy", "fast"], by decide⟩), ("slots", map slots')]
    a.Keyed ∧ b.Keyed ∧ a.Rearranged b ∧ a.same b = true ∧ b.same a = true ∧
      b.same b = a.same b := by
  intro slots slots' a b
  have hf : (float .one : Value RecordType).Keyed := .of_no_parts rfl
  have hl : (list [null] : Value RecordType).Keyed := by
    simpa [keyed_list] using Keyed.of_no_parts rfl
  have ht (tags : StringSet) : (stringSet tags : Value RecordType).Keyed := .of_no_parts rfl
  have hs : (map slots).Keyed := by simp [slots, keyed_map, Table.keys, hf, hl]
  have hs' : (map slots').Keyed := by simp [slots', keyed_map, Table.keys, hf, hl]
  have ha : a.Keyed := by simp [a, keyed_record, ht, hs]
  have hb : b.Keyed := by simp [b, keyed_record, ht, hs']
  have hr : a.Rearranged b :=
    .tail (.single (@Rearranges.field _ _ [] _ _ _ _ (.members (List.Perm.swap _ _ []))))
      (@Rearranges.field _ _ [_] [] _ _ _ (.entries (List.Perm.swap _ _ [])))
  have he : a.same b = true := by decide +kernel
  obtain ⟨symm, -, -, order, -⟩ := same_compares_contents a b a ha hb
  exact ⟨ha, hb, hr, he, symm he, order b b hr .refl⟩

end Value

end FieldPatch
