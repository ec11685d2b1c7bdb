import FieldPatch.Script

namespace FieldPatch

/-- Configs by type and key, each of them an object of its own. -/
structure Registry where
  types : Table String (Table String Object) := []
  /-- The number of objects the registry has made so far. -/
  made : Nat := 0

namespace Registry

def configs (r : Registry) (type : String) : Table String Object :=
  (Table.get? type r.types).getD []

def object? (r : Registry) (type key : String) : Option Object := Table.get? key (r.configs type)

def get? (r : Registry) (type key : String) : Option (Value RecordType) :=
  (r.object? type key).map Object.value

def keys (r : Registry) (type : String) : List String := Table.keys (r.configs type)

def size (r : Registry) : Nat := r.types.foldl (fun n (_, configs) => n + configs.length) 0

/-- Puts a value under a type and key. A key that is taken keeps its place and its object, which
gets the new value; the old value is given back. -/
def insert (type key : String) (value : Value RecordType) (r : Registry) :
    Option (Value RecordType) × Registry :=
  match r.object? type key with
  | some old =>
    (some old.value,
      { r with types :=
          Table.put type (Table.put key { old with value } (r.configs type)) r.types })
  | none =>
    (none,
      { types := Table.put type (Table.put key ⟨.stored r.made, value⟩ (r.configs type)) r.types
        made := r.made + 1 })

def update (type key : String) (value : Value RecordType) (r : Registry) : Registry :=
  match r.object? type key with
  | some old =>
    { r with types := Table.set type (Table.set key { old with value } (r.configs type)) r.types }
  | none => r

/-- The key under which the object itself is held as a config of that type. -/
def findKey? (type : String) (target : ObjectId) (r : Registry) : Option String :=
  ((r.configs type).find? fun (_, object) => object.id = target).map Prod.fst

/-- The file key of an edit: the given one, or the one found when it is blank. -/
def fileKey (type : String) (target : ObjectId) (key : String) (r : Registry) : String :=
  if key.isEmpty then (r.findKey? type target).getD "" else key

/-- The request with its blank file key found, and a report of it. -/
def resolve (request : Request) (target : ObjectId) (r : Registry) : Request × List Event :=
  if request.fileKey.isEmpty then
    let key := r.fileKey request.typeName target request.fileKey
    ({ request with fileKey := key },
      if key.isEmpty then [] else [.resolvedKey key request.typeName])
  else (request, [])

/-- Applies a script to the config that the base request names, if the registry holds it. -/
def applyScript (script : Script) (base : Request) (s : Session) (r : Registry) :
    Option (ScriptRun × Registry) :=
  (r.object? base.typeName base.fileKey).map fun object =>
    let run := s.applyScript script base object
    (run, r.update base.typeName base.fileKey run.root)

end Registry

end FieldPatch
