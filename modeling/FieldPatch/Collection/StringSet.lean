namespace FieldPatch

/-- A set of texts that remembers the order in which its members came in. -/
structure StringSet where
  members : List String
  nodup : members.Nodup

namespace StringSet

def empty : StringSet := ⟨[], List.nodup_nil⟩

def size (s : StringSet) : Nat := s.members.length

def contains (s : StringSet) (member : String) : Bool := s.members.contains member

/-- The set with a member added at the end, unless it is there. -/
def insert (s : StringSet) (member : String) : StringSet :=
  if h : member ∈ s.members then s
  else ⟨s.members ++ [member], by
    simp only [List.nodup_append, s.nodup, List.nodup_cons, List.not_mem_nil, true_and]
    grind⟩

def erase (s : StringSet) (member : String) : StringSet :=
  ⟨s.members.erase member, s.nodup.erase member⟩

def ofList (members : List String) : StringSet := members.foldl insert empty

/-- The same members, in any order. -/
def same (s t : StringSet) : Bool :=
  s.size == t.size && s.members.all t.contains

def text (s : StringSet) : String :=
  String.singleton '\x7b' ++ String.intercalate ", " s.members ++ String.singleton '\x7d'

theorem mem_insert (s : StringSet) (a m : String) :
    m ∈ (s.insert a).members ↔ m ∈ s.members ∨ m = a := by
  unfold insert; split <;> grind

theorem mem_erase (s : StringSet) (a m : String) :
    m ∈ (s.erase a).members ↔ m ≠ a ∧ m ∈ s.members := s.nodup.mem_erase_iff

end StringSet

end FieldPatch
