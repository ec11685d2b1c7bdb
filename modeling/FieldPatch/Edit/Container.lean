import FieldPatch.Edit.Place
import FieldPatch.Edit.Slot

namespace FieldPatch.Editing

/-- How an edit ends: with an outcome or a fault, and with the state it leaves in both cases. -/
abbrev Result : Type := Except Fault Outcome × Editing

def editSlot (tags : TagTable) (location : Location) (kind : Kind RecordType) (e : Editing) :
    Result :=
  let aimed := e.aim location kind
  match aimed.root.at? location with
  | none => (.error (.staleContext location), aimed)
  | some current =>
    let p := aimed.progress
    match SlotEdit.decide tags ⟨p.op, p.value, p.segment⟩ kind current with
    | .error fault => (.error fault, aimed)
    | .ok edit =>
      let (outcome, done) := aimed.perform location kind edit
      (.ok outcome, done)

/-- The value that makes room for an insertion. A kind without a default instance starts at null if
there is a value to fill it with. -/
def newEntry (kind : Kind RecordType) (value : String) : Except Fault (Value RecordType) :=
  match kind.fresh? with
  | some fresh => .ok fresh
  | none => if Text.allBlank value then .error (.noInstance kind) else .ok .null

/-- The operation that fills an inserted slot. A tag asks for an instance, but is text in a slot
for texts. -/
def fillOperation (kind : Kind RecordType) (value : String) : Operation :=
  match kind with
  | .string => .overwrite
  | _ => if Tag.isTag value then .reset else .overwrite

/-- Fills the slot that was just inserted. Without a value it stays as it is, and a structural one
becomes a context for the edits that will fill it. -/
def fill (tags : TagTable) (location : Location) (kind : Kind RecordType) (e : Editing) : Result :=
  let value := e.progress.value
  if Text.allBlank value then
    let aimed := e.aim location kind
    (.ok .incomplete, if kind.isStructural then aimed.setContext location kind else aimed)
  else
    editSlot tags location kind
      { e with progress := { e.progress with op := fillOperation kind value } }

/-- A new element comes into a list, and the contexts behind it move up. -/
def makeElement (list : Location) (items : List (Value RecordType)) (index : Nat)
    (kind : Kind RecordType) (entry : Value RecordType) (e : Editing) : Editing :=
  let changed := e.amend list (.list (items.insertIdx index entry))
  { changed with contexts := changed.contexts.afterInsert list index }.info <|
    if index = items.length then "added new " ++ kind.text ++ " entry to end of list"
    else "inserted new " ++ kind.text ++ s!" entry at index {index}"

def insertElement (tags : TagTable) (list : Location) (items : List (Value RecordType))
    (index : Nat) (kind : Kind RecordType) (e : Editing) : Result :=
  match newEntry kind e.progress.value with
  | .error fault => (.error fault, e)
  | .ok entry =>
    fill tags (list.child (.index index)) kind (e.makeElement list items index kind entry)

/-- An element leaves a list; the contexts in it are lost and those behind it move down. -/
def dropElement (list : Location) (items : List (Value RecordType)) (index : Nat)
    (e : Editing) : Editing :=
  let changed := e.amend list (.list (items.eraseIdx index))
  let (lost, contexts) := e.contexts.afterRemove list index
  let told := ({ changed with contexts }.reach (list.child (.index index))).info
    s!"removed entry at index {index}"
  told.traceLost lost fun lost =>
    s!"discarded {lost} contexts inside removed entry"

/-- Edits a list at a place. Only an insertion may address a place past the end. -/
def editElement (tags : TagTable) (list : Location) (items : List (Value RecordType))
    (index : Option Nat) (kind : Kind RecordType) (e : Editing) : Result :=
  let p := e.progress
  match p.op, index.filter (· < items.length) with
  | .insert, inside => insertElement tags list items (inside.getD items.length) kind e
  | op, none => (.error (.elementOutOfRange op p.segment items.length), e)
  | .remove, some i => (.ok .removed, e.dropElement list items i)
  | _, some i => editSlot tags (list.child (.index i)) kind e

def makeEntry (map : Location) (entries : List (Key × Value RecordType)) (key : Key)
    (entry : Value RecordType) (e : Editing) : Editing :=
  (e.amend map (.map (entries ++ [(key, entry)]))).info
    ("added key " ++ key.text ++ " to target map")

def insertEntry (tags : TagTable) (map : Location) (entries : List (Key × Value RecordType))
    (key : Key) (kind : Kind RecordType) (e : Editing) : Result :=
  match newEntry kind e.progress.value with
  | .error fault => (.error fault, e)
  | .ok entry => fill tags (map.child (.key key)) kind (e.makeEntry map entries key entry)

def dropEntry (map : Location) (entries : List (Key × Value RecordType)) (key : Key)
    (e : Editing) : Editing :=
  let slot := map.child (.key key)
  let changed := e.amend map (.map (Table.erase key entries))
  let (lost, contexts) := e.contexts.discardWithin slot true
  let told := ({ changed with contexts }.reach slot).info
    ("removed key " ++ key.text ++ " from target map")
  told.traceLost lost fun lost =>
    s!"discarded {lost} contexts inside removed entry"

/-- Edits a map at a key. An insertion needs an absent key, every other operation a present one. -/
def editEntry (tags : TagTable) (map : Location) (entries : List (Key × Value RecordType))
    (key : Key) (kind : Kind RecordType) (e : Editing) : Result :=
  match e.progress.op, Table.contains key entries with
  | .insert, true =>
    (.ok .noOp, (e.reach (map.child (.key key))).noEffect
      ("key " ++ key.text ++ " already exists in target map, ignoring insert"))
  | .insert, false => insertEntry tags map entries key kind e
  | _, false => (.error (.missingKey key), e)
  | .remove, true => (.ok .removed, e.dropEntry map entries key)
  | _, true => editSlot tags (map.child (.key key)) kind e

def editDestination (tags : TagTable) (destination : Destination) (e : Editing) : Result :=
  let arrived := { e with progress := { e.progress with atEnd := true } }
  let container := destination.container
  match destination.place with
  | .field name kind => editSlot tags (container.child (.field name)) kind arrived
  | .element items index kind => editElement tags container items index kind arrived
  | .entry entries key kind => editEntry tags container entries key kind arrived

section Frame

variable (location : Location) (items : List (Value RecordType)) (index : Nat)
  (kind : Kind RecordType) (entries : List (Key × Value RecordType)) (key : Key)
  (entry : Value RecordType) (e : Editing)

@[simp] theorem root_makeElement : (e.makeElement location items index kind entry).root =
    (e.amend location (.list (items.insertIdx index entry))).root := rfl

@[simp] theorem contexts_makeElement : (e.makeElement location items index kind entry).contexts =
    e.contexts.afterInsert location index := rfl

@[simp] theorem root_dropElement : (e.dropElement location items index).root =
    (e.amend location (.list (items.eraseIdx index))).root := by
  simp [dropElement]

@[simp] theorem contexts_dropElement : (e.dropElement location items index).contexts =
    (e.contexts.afterRemove location index).2 := by
  simp [dropElement]

@[simp] theorem root_makeEntry : (e.makeEntry location entries key entry).root =
    (e.amend location (.map (entries ++ [(key, entry)]))).root := rfl

@[simp] theorem contexts_makeEntry :
    (e.makeEntry location entries key entry).contexts = e.contexts := rfl

@[simp] theorem root_dropEntry : (e.dropEntry location entries key).root =
    (e.amend location (.map (Table.erase key entries))).root := by
  simp [dropEntry]

@[simp] theorem contexts_dropEntry : (e.dropEntry location entries key).contexts =
    (e.contexts.discardWithin (location.child (.key key)) true).2 := by
  simp [dropEntry]

end Frame

end FieldPatch.Editing
