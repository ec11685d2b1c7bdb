import FieldPatch.Edit.Run
import FieldPatch.Log

namespace FieldPatch

/-- Tells the objects apart that are edited: those that stand alone and those of a registry. -/
inductive ObjectId where
  | loose (n : Nat)
  | stored (n : Nat)
deriving DecidableEq, Repr

/-- A config as an object of its own; equal configs can be different objects. -/
structure Object where
  id : ObjectId
  value : Value RecordType

/-- Files are told apart by key, or by the object edited when the key is blank. -/
inductive FileId where
  | key (key : String)
  | object (id : ObjectId)
deriving DecidableEq, Repr

namespace FileId

def ofEdit (request : Request) (target : ObjectId) : FileId :=
  if request.fileKey.isEmpty then object target else key request.fileKey

def key? : FileId → Option String
  | key k => some k
  | object _ => none

end FileId

/-- Edits in a row. Contexts and latch are those of the file edited last; another file clears both. -/
structure Session where
  settings : Settings
  tags : TagTable
  contexts : ContextStack := .empty
  lastFile : Option FileId := none
  faulted : Bool := false
  last : Option Progress := none

/-- What one edit leaves: its outcome, the config, the session, and what was reported. -/
structure Turn where
  outcome : Outcome
  root : Value RecordType
  session : Session
  notes : List Diagnostic

namespace Session

def start (settings : Settings) (tags : TagTable) : Session × List Event :=
  ({ settings, tags },
    .opened settings :: if settings.logTagMap then [.knows tags] else [])

def lastKey? (s : Session) : Option String := s.lastFile.bind FileId.key?

/-- The session as it was when it was new. -/
def reset (s : Session) : Session := { settings := s.settings, tags := s.tags }

def remark (channel : Channel) (request : Request) (detail : String) : Diagnostic :=
  { channel, verb := .attempts, request, path := request.path, detail }

/-- The session after it turned to `file`, without the contexts of the file it was in. -/
def turnTo (file : FileId) (s : Session) : Session :=
  { s with contexts := .empty, lastFile := some file, faulted := false }

/-- What turning to another file reports: contexts that are lost. -/
def turnNotes (request : Request) (s : Session) : List Diagnostic :=
  let lost := s.contexts.size
  if s.contexts.isEmpty then []
  else s.settings.report (remark .context request s!"new file, discarded {lost} contexts")

/-- The edit of a file that the session is in and that is not latched. A request without path or
value is ignored. -/
def editFile (request : Request) (root : Value RecordType) (s : Session) : Turn :=
  if request.path.isEmpty || request.value.isEmpty then ⟨.ignored, root, s, []⟩
  else
    let (outcome, done) := Editing.run s.settings s.tags s.contexts request root
    { outcome
      root := done.root
      session := { s with
        contexts := done.contexts
        faulted := outcome.isFault
        last := some done.progress }
      notes := done.notes }

def edit (request : Request) (target : Object) (s : Session) : Turn :=
  let file := FileId.ofEdit request target.id
  if s.lastFile ≠ some file then
    let t := (s.turnTo file).editFile request target.value
    { t with notes := s.turnNotes request ++ t.notes }
  else if s.faulted && s.settings.latchFaults then
    ⟨.skipped, target.value, s,
      s.settings.report (remark .info request "skipped, an earlier edit to this file faulted")⟩
  else s.editFile request target.value

end Session

end FieldPatch
