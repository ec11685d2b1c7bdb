import FieldPatch.Schema.RecordType
import Mathlib.Logic.Relation

namespace FieldPatch

/-- What a type is said to be while it is built: that it takes over another type, counts as an
interface, or has a field. -/
inductive Declaration where
  | extend (base : RecordType)
  | implement (interface : String)
  | declare (name : String) (field : Field RecordType)

/-- The type counts as the name because of the declaration. -/
def Declaration.Adds (n : String) : Declaration → Prop
  | .extend base => base.isA n = true
  | .implement interface => n = interface
  | .declare _ _ => False

namespace RecordType

def apply (type : RecordType) : Declaration → RecordType
  | .extend base => type.extend base
  | .implement interface => type.implement interface
  | .declare name field => type.declare name field

/-- The type of a name that some declarations build, one after the other. -/
def build (name : String) (declarations : List Declaration) : RecordType :=
  declarations.foldl apply (named name)

/-- Types built from nothing: whatever they extend was built before. -/
inductive Built : RecordType → Prop
  | build (name : String) (declarations : List Declaration)
      (bases : ∀ base, .extend base ∈ declarations → Built base) :
      Built (RecordType.build name declarations)

/-- The type is built with a declaration that extends the other one. -/
def Extends (type base : RecordType) : Prop :=
  ∃ name declarations, type = build name declarations ∧ .extend base ∈ declarations

def Implements (type : RecordType) (interface : String) : Prop :=
  ∃ name declarations, type = build name declarations ∧ .implement interface ∈ declarations

/-- The other type is the type itself or comes up a chain of extended types. -/
def Inherits : RecordType → RecordType → Prop := Relation.ReflTransGen Extends

variable {type base : RecordType} {n name : String} {declarations : List Declaration}

theorem isA_iff : type.isA n = true ↔ n = type.name ∨ n ∈ type.supertypes := by
  rw [isA, Bool.or_eq_true, beq_iff_eq, List.contains_iff_mem]
  exact or_congr_left eq_comm

/-- Extending takes over fields, which have no say in what a type counts as, and then names. -/
theorem extend_eq (type base : RecordType) : ∃ fields, type.extend base =
    (base.name :: base.supertypes).foldl addSupertype (mk type.name type.supertypes fields) := by
  obtain ⟨fields, hf⟩ : ∃ fields, base.fields.foldl (fun t entry => t.declare entry.1 entry.2)
      type = mk type.name type.supertypes fields := by
    refine List.foldlRecOn (motive := fun t : RecordType => ∃ fields,
      t = mk type.name type.supertypes fields) base.fields _ ⟨type.fields, ?_⟩ ?_
    · cases type
      rfl
    · rintro _ ⟨fields, rfl⟩ entry -
      exact ⟨_, rfl⟩
  exact ⟨fields, congrArg ((base.name :: base.supertypes).foldl addSupertype) hf⟩

section Name

theorem name_addSupertype (type : RecordType) (n : String) :
    (type.addSupertype n).name = type.name := by
  rw [addSupertype]
  split
  · rfl
  · rfl

theorem name_extend (type base : RecordType) : (type.extend base).name = type.name := by
  obtain ⟨fields, he⟩ := extend_eq type base
  rw [he]
  exact List.foldlRecOn (motive := fun t : RecordType => t.name = type.name) _ addSupertype rfl
    fun t h added _ => (name_addSupertype t added).trans h

theorem name_apply (type : RecordType) (declaration : Declaration) :
    (type.apply declaration).name = type.name := by
  cases declaration with
  | extend base => exact name_extend type base
  | implement interface => exact name_addSupertype type interface
  | declare name field => rfl

theorem name_build (name : String) (declarations : List Declaration) :
    (build name declarations).name = name :=
  List.foldlRecOn (motive := fun t : RecordType => t.name = name) declarations apply rfl
    fun t h d _ => (name_apply t d).trans h

end Name

section Member

theorem isA_addSupertype (type : RecordType) (added : String) :
    (type.addSupertype added).isA n = true ↔ type.isA n = true ∨ n = added := by
  rw [addSupertype]
  split
  · rename_i h
    constructor
    · exact .inl
    · rintro (hn | rfl)
      · exact hn
      · exact h
  · have hs : (mk type.name (type.supertypes ++ [added]) type.fields).isA n = true ↔
        n = type.name ∨ n ∈ type.supertypes ++ [added] := isA_iff
    rw [hs, isA_iff, List.mem_append, List.mem_singleton, or_assoc]

/-- If each step of a fold adds names to those that a type counts as, the fold adds all of them. -/
theorem isA_foldl {α : Type} {step : RecordType → α → RecordType} {adds : α → Prop}
    (h : ∀ t a, (step t a).isA n = true ↔ t.isA n = true ∨ adds a) (type : RecordType)
    (items : List α) :
    (items.foldl step type).isA n = true ↔ type.isA n = true ∨ ∃ a ∈ items, adds a := by
  induction items generalizing type with
  | nil => simp
  | cons first rest ih =>
    rw [List.foldl_cons, ih, h, or_assoc]
    simp only [List.mem_cons, exists_eq_or_imp]

/-- A type that extends another one counts as all that either of them counts as. -/
theorem isA_extend (type base : RecordType) :
    (type.extend base).isA n = true ↔ type.isA n = true ∨ base.isA n = true := by
  have hs : (∃ added ∈ base.name :: base.supertypes, n = added) ↔ base.isA n = true := by
    rw [exists_eq_right', List.mem_cons, isA_iff]
  obtain ⟨fields, he⟩ := extend_eq type base
  have hf : (mk type.name type.supertypes fields).isA n = type.isA n := rfl
  rw [he, isA_foldl isA_addSupertype, hs, hf]

theorem isA_apply (type : RecordType) (declaration : Declaration) :
    (type.apply declaration).isA n = true ↔ type.isA n = true ∨ declaration.Adds n := by
  cases declaration with
  | extend base => exact isA_extend type base
  | implement interface => exact isA_addSupertype type interface
  | declare name field => exact (or_iff_left id).symm

theorem exists_adds_iff : (∃ declaration ∈ declarations, Declaration.Adds n declaration) ↔
    .implement n ∈ declarations ∨ ∃ base, .extend base ∈ declarations ∧ base.isA n = true := by
  constructor
  · rintro ⟨declaration, hm, ha⟩
    cases declaration with
    | extend base => exact .inr ⟨base, hm, ha⟩
    | implement interface =>
      obtain rfl : n = interface := ha
      exact .inl hm
    | declare name field => exact absurd ha id
  · rintro (hm | ⟨base, hm, ha⟩)
    · exact ⟨_, hm, rfl⟩
    · exact ⟨_, hm, ha⟩

/-- A type counts as itself, as what it implements, and as all that its bases count as. -/
theorem isA_build (name : String) (declarations : List Declaration) :
    (build name declarations).isA n = true ↔ n = name ∨ .implement n ∈ declarations ∨
      ∃ base, .extend base ∈ declarations ∧ base.isA n = true := by
  have hn : (named name).isA n = true ↔ n = name := by
    rw [isA_iff]
    exact or_iff_left List.not_mem_nil
  rw [build, isA_foldl isA_apply, hn, exists_adds_iff]

end Member

section Ancestor

theorem Extends.isA (h : type.Extends base) (hb : base.isA n = true) : type.isA n = true := by
  obtain ⟨name, declarations, rfl, hm⟩ := h
  exact (isA_build name declarations).mpr (.inr (.inr ⟨base, hm, hb⟩))

theorem Implements.isA (h : type.Implements n) : type.isA n = true := by
  obtain ⟨name, declarations, rfl, hm⟩ := h
  exact (isA_build name declarations).mpr (.inr (.inl hm))

/-- What a type counts as is handed down a chain of any length. -/
theorem Inherits.isA (h : type.Inherits base) (hb : base.isA n = true) : type.isA n = true := by
  induction h with
  | refl => exact hb
  | tail _ last ih => exact ih (last.isA hb)

theorem isA_name (type : RecordType) : type.isA type.name = true := isA_iff.mpr (.inl rfl)

/-- Each name that a built type counts as comes from one of the types it inherits from. -/
theorem Built.exists_ancestor (h : type.Built) (hn : type.isA n = true) :
    ∃ ancestor, type.Inherits ancestor ∧ (n = ancestor.name ∨ ancestor.Implements n) := by
  induction h with
  | build name declarations bases ih =>
    rcases (isA_build name declarations).mp hn with rfl | hi | ⟨base, hm, hb⟩
    · exact ⟨_, .refl, .inl (name_build _ declarations).symm⟩
    · exact ⟨_, .refl, .inr ⟨name, declarations, rfl, hi⟩⟩
    · obtain ⟨ancestor, ha, hn⟩ := ih base hm hb
      have he : (RecordType.build name declarations).Extends base := ⟨name, declarations, rfl, hm⟩
      exact ⟨ancestor, .head he ha, hn⟩

theorem Built.isA_iff_ancestor (h : type.Built) : type.isA n = true ↔
    ∃ ancestor, type.Inherits ancestor ∧ (n = ancestor.name ∨ ancestor.Implements n) := by
  constructor
  · exact h.exists_ancestor
  · rintro ⟨ancestor, ha, rfl | hi⟩
    · exact ha.isA (isA_name ancestor)
    · exact ha.isA hi.isA

/-- A slot that takes records of a type takes records of all types that inherit from it. -/
theorem Inherits.accepts (h : type.Inherits base) {kind : Kind RecordType}
    (hk : kind.accepts base = true) : kind.accepts type = true := by
  cases kind with
  | record declared => exact h.isA hk
  | interface name => exact h.isA hk
  | _ => contradiction

end Ancestor

section Proper

/-- The list of supertypes holds no name twice and leaves out the type's own. -/
structure Proper (type : RecordType) : Prop where
  unnamed : type.name ∉ type.supertypes
  nodup : type.supertypes.Nodup

theorem Proper.addSupertype (h : type.Proper) (added : String) :
    (type.addSupertype added).Proper := by
  rw [RecordType.addSupertype]
  split
  · exact h
  · rename_i ha
    rw [isA_iff, not_or] at ha
    obtain ⟨hn, hm⟩ := ha
    constructor
    · intro hs
      rcases List.mem_append.mp hs with hs | hs
      · exact h.unnamed hs
      · exact hn (List.mem_singleton.mp hs).symm
    · exact List.nodup_append.mpr ⟨h.nodup, List.pairwise_singleton _ added, fun s hs t ht he =>
        hm (List.mem_singleton.mp ht ▸ he ▸ hs)⟩

theorem Proper.extend (h : type.Proper) (base : RecordType) : (type.extend base).Proper := by
  obtain ⟨fields, he⟩ := extend_eq type base
  have hf : (RecordType.mk type.name type.supertypes fields).Proper := ⟨h.unnamed, h.nodup⟩
  rw [he]
  exact List.foldlRecOn (motive := Proper) _ RecordType.addSupertype hf
    fun _ ht added _ => ht.addSupertype added

theorem Proper.apply (h : type.Proper) (declaration : Declaration) :
    (type.apply declaration).Proper := by
  cases declaration with
  | extend base => exact h.extend base
  | implement interface => exact h.addSupertype interface
  | declare name field => exact ⟨h.unnamed, h.nodup⟩

theorem proper_build (name : String) (declarations : List Declaration) :
    (build name declarations).Proper := by
  have hn : (named name).Proper := ⟨List.not_mem_nil, List.nodup_nil⟩
  exact List.foldlRecOn (motive := Proper) declarations RecordType.apply hn
    fun _ ht declaration _ => ht.apply declaration

end Proper

/-- What the type that some declarations build counts as. -/
structure Lineage (name : String) (declarations : List Declaration) (type : RecordType) : Prop where
  named : type.name = name
  /-- It counts as itself, as what it implements, and as what the types it extends count as. -/
  counts : ∀ n, type.isA n = true ↔ n = name ∨ .implement n ∈ declarations ∨
    ∃ base, .extend base ∈ declarations ∧ base.isA n = true
  /-- So it counts as its ancestors and as what they implement, however far up, and as no more. -/
  descends : ∀ n, type.isA n = true ↔
    ∃ ancestor, type.Inherits ancestor ∧ (n = ancestor.name ∨ ancestor.Implements n)
  /-- It can stand where it is asked for itself, or for what it implements. -/
  itself : (Kind.record type).accepts type = true
  implementer : ∀ interface, .implement interface ∈ declarations →
    (Kind.interface interface).accepts type = true
  /-- It can stand where an ancestor is asked for, and wherever an ancestor can. -/
  derived : ∀ ancestor, type.Inherits ancestor → (Kind.record ancestor).accepts type = true ∧
    ∀ kind : Kind RecordType, kind.accepts ancestor = true → kind.accepts type = true
  unnamed : name ∉ type.supertypes
  nodup : type.supertypes.Nodup

theorem lineage_of_built (name : String) (declarations : List Declaration)
    (bases : ∀ base, .extend base ∈ declarations → Built base) :
    Lineage name declarations (build name declarations) where
  named := name_build name declarations
  counts := fun _ => isA_build name declarations
  descends := fun _ => (Built.build name declarations bases).isA_iff_ancestor
  itself := isA_name _
  implementer := fun _ hi => (isA_build name declarations).mpr (.inr (.inl hi))
  derived := fun ancestor ha => ⟨ha.isA (isA_name ancestor), fun _ => ha.accepts⟩
  unnamed := by
    have hp := (proper_build name declarations).unnamed
    rwa [name_build] at hp
  nodup := (proper_build name declarations).nodup

/-- A type that comes to the same name by two ways, by another type of that name, and by an interface
called as it is itself. -/
theorem cannon_lineage :
    let part := build "Part" [.implement "IPart"]
    let weapon := build "Weapon" [.extend part, .implement "IArmed"]
    let mount := build "Mount" [.extend (build "Part" [])]
    let declarations := [.extend weapon, .implement "Cannon", .extend mount, .implement "IPart",
      .declare "damage" ⟨.float, none⟩]
    let cannon := build "Cannon" declarations
    (∀ base, .extend base ∈ declarations → Built base) ∧
      cannon.supertypes = ["Weapon", "Part", "IPart", "IArmed", "Mount"] ∧
      Lineage "Cannon" declarations cannon := by
  intro part weapon mount declarations cannon
  have hp : Built part := .build _ _ (by simp)
  have he : Built (build "Part" []) := .build _ _ (by simp)
  have hw : Built weapon := .build _ _ (by simpa using hp)
  have hm : Built mount := .build _ _ (by simpa using he)
  have hb : ∀ base, .extend base ∈ declarations → Built base := by
    simp only [declarations, List.mem_cons, Declaration.extend.injEq, reduceCtorEq, false_or,
      List.not_mem_nil, or_false]
    rintro base (rfl | rfl)
    · exact hw
    · exact hm
  have hs : cannon.supertypes = ["Weapon", "Part", "IPart", "IArmed", "Mount"] := by
    decide +kernel
  exact ⟨hb, hs, lineage_of_built "Cannon" declarations hb⟩

end RecordType

end FieldPatch
