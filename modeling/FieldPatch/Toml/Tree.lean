import FieldPatch.Collection.Table

namespace FieldPatch.Toml

/-- How a table came about: by a header of its own, as a part of the header of another table, or by
a dotted key. -/
inductive Origin where
  | header
  | implied
  | dotted
deriving DecidableEq

inductive Node where
  | value (flag : Option Bool)
  | table (origin : Origin) (entries : List (String × Node))
  /-- An array of tables, of which only the latest can still grow. -/
  | tables (latest : List (String × Node))

abbrev Entries : Type := Table String Node

/-- Adds a value under a key, below a path of dotted keys. Tables that dotted keys made are added
to, those with a header are not, and no key is given twice. -/
def insertDotted (key : String) (value : Node) : List String → Entries → Option Entries
  | [], entries =>
    if Table.contains key entries then none else some (entries ++ [(key, value)])
  | part :: path, entries =>
    match Table.get? part entries with
    | none => (insertDotted key value path []).map fun sub =>
        Table.put part (.table .dotted sub) entries
    | some (.table origin sub) =>
      if origin = .header ∨ (path.isEmpty ∧ origin ≠ .dotted) then none
      else (insertDotted key value path sub).map fun sub =>
        Table.set part (.table origin sub) entries
    | some (.tables latest) =>
      if path.isEmpty then none
      else (insertDotted key value path latest).map fun latest =>
        Table.set part (.tables latest) entries
    | some (.value _) => none

/-- Changes the node that a header names, the tables on the way being made where they are missing.
`change` gets the node that is there and refuses those it cannot go on from. -/
def atHeader (change : Option Node → Option Node) : List String → Entries → Option Entries
  | [], _ => none
  | [key], entries =>
    (change (Table.get? key entries)).map fun node => Table.put key node entries
  | part :: path, entries =>
    match Table.get? part entries with
    | none => (atHeader change path []).map fun sub =>
        Table.put part (.table .implied sub) entries
    | some (.table origin sub) => (atHeader change path sub).map fun sub =>
        Table.set part (.table origin sub) entries
    | some (.tables latest) => (atHeader change path latest).map fun latest =>
        Table.set part (.tables latest) entries
    | some (.value _) => none

end FieldPatch.Toml
