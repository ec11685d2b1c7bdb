import FieldPatch.Proofs.Collection.Keyed
import FieldPatch.Proofs.Schema.Subtyping

namespace FieldPatch

/-- The fields that a declaration declares, those that are taken over included, in their order. -/
def Declaration.fields : Declaration → List (String × Field RecordType)
  | .extend base => base.fields
  | .implement _ => []
  | .declare name field => [(name, field)]

namespace RecordType

/-- All that is declared of fields, from the first declaration to the last. -/
def declared (declarations : List Declaration) : List (String × Field RecordType) :=
  declarations.flatMap Declaration.fields

theorem fields_addSupertype (type : RecordType) (n : String) :
    (type.addSupertype n).fields = type.fields := by
  rw [addSupertype]
  split
  · rfl
  · rfl

/-- Extending puts the fields of the base into the table and leaves them there. -/
theorem fields_extend (type base : RecordType) :
    (type.extend base).fields = Table.fill type.fields base.fields := by
  have hd (entries : List (String × Field RecordType)) (t : RecordType) :
      (entries.foldl (fun t entry => t.declare entry.1 entry.2) t).fields =
        Table.fill t.fields entries := by
    induction entries generalizing t with
    | nil => rfl
    | cons e rest ih => exact ih (t.declare e.1 e.2)
  have hs (t : RecordType) : ((base.name :: base.supertypes).foldl addSupertype t).fields =
      t.fields :=
    List.foldlRecOn (motive := fun u : RecordType => u.fields = t.fields) _ addSupertype rfl
      fun u h n _ => (fields_addSupertype u n).trans h
  exact (hs _).trans (hd base.fields type)

theorem fields_apply (type : RecordType) (declaration : Declaration) :
    (type.apply declaration).fields = Table.fill type.fields declaration.fields := by
  cases declaration with
  | extend base => exact fields_extend type base
  | implement interface => exact fields_addSupertype type interface
  | declare name field => rfl

theorem fields_build (name : String) (declarations : List Declaration) :
    (build name declarations).fields = Table.fill [] (declared declarations) := by
  have hf (type : RecordType) : (declarations.foldl apply type).fields =
      Table.fill type.fields (declared declarations) := by
    induction declarations generalizing type with
    | nil => rfl
    | cons first rest ih =>
      have hd : declared (first :: rest) = first.fields ++ declared rest := List.flatMap_cons
      rw [List.foldl_cons, ih, fields_apply, hd, Table.fill_append]
  exact hf (named name)

/-- The table of the fields that some declarations declare. -/
structure FieldTable (declarations : List Declaration) (type : RecordType) : Prop where
  distinct : (Table.keys type.fields).Nodup
  index : ∀ name i, Table.index? name type.fields = some i ↔
    ∃ field, type.fields[i]? = some (name, field)
  lookup : ∀ name field, type.field? name = some field ↔ (name, field) ∈ type.fields
  complete : ∀ name, name ∈ Table.keys type.fields ↔ name ∈ Table.keys (declared declarations)
  inherited : ∀ base, .extend base ∈ declarations →
    ∀ name ∈ Table.keys base.fields, name ∈ Table.keys type.fields
  /-- A field stands behind those that were declared before it was declared first. -/
  first : ∀ before name field after,
    declared declarations = before ++ (name, field) :: after → name ∉ Table.keys before →
      Table.index? name type.fields = some (Table.keys before).dedup.length
  /-- Its kind and its initial value are those with which it was declared last. -/
  last : ∀ before name field after,
    declared declarations = before ++ (name, field) :: after → name ∉ Table.keys after →
      type.field? name = some field

theorem fieldTable_build (name : String) (declarations : List Declaration) :
    FieldTable declarations (build name declarations) := by
  have hf := fields_build name declarations
  have hn : (Table.keys (build name declarations).fields).Nodup :=
    hf ▸ Table.nodup_keys_filled (declared declarations)
  have hm : ∀ n, n ∈ Table.keys (build name declarations).fields ↔
      n ∈ Table.keys (declared declarations) := by
    intro n
    rw [hf, Table.mem_keys_fill]
    exact or_iff_right List.not_mem_nil
  constructor
  · exact hn
  · intro n i
    rw [Table.index?_eq_some_iff hn, Table.keys, List.getElem?_map, Option.map_eq_some_iff]
    constructor
    · rintro ⟨⟨_, field⟩, hi, rfl⟩
      exact ⟨field, hi⟩
    · rintro ⟨field, hi⟩
      exact ⟨(n, field), hi, rfl⟩
  · intro n field
    exact Table.get?_eq_some_iff hn
  · exact hm
  · intro base hb n hk
    obtain ⟨e, he, rfl⟩ := List.mem_map.mp hk
    have hd : e ∈ declared declarations := List.mem_flatMap.mpr ⟨.extend base, hb, he⟩
    exact (hm e.1).mpr (List.mem_map_of_mem hd)
  · intro before n field after hd hb
    rw [hf, hd]
    exact Table.index?_fill_first hb
  · intro before n field after hd ha
    rw [field?, hf, hd]
    exact Table.get?_fill_last ha []

/-- A field that is taken over keeps the place of the one it replaces. -/
example :
    let base := build "Part" [.declare "mass" ⟨.float, none⟩, .declare "hp" ⟨.int, none⟩]
    let type := build "Gun" [.declare "hp" ⟨.string, none⟩, .extend base]
    Table.keys type.fields = ["hp", "mass"] ∧ type.field? "hp" = some ⟨.int, none⟩ :=
  ⟨rfl, rfl⟩

end RecordType

end FieldPatch
