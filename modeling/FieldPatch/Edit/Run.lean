import FieldPatch.Edit.Container

namespace FieldPatch.Editing

/-- Where a path without markers starts: at the root, which must be a record. -/
def startAtRoot (e : Editing) : Except Fault Cursor × Editing :=
  match e.root with
  | .record type _ => (.ok ⟨[], .record type⟩, e)
  | root => (.error (.rootNotRecord root.sort), e)

/-- Where a path with `depth` markers starts: at the context of that depth, which becomes the
newest one. -/
def startAtContext (depth : Nat) (path : FieldPath) (e : Editing) :
    Except Fault Cursor × Editing :=
  let available := e.contexts.size
  let entered := { e with progress := { e.progress with
    segment := Segment.markerRun depth
    segmentCount := path.segments.length + 1 } }
  match entered.contexts.select? depth with
  | none => (.error (.contextDepth depth available), entered)
  | some (context, contexts) =>
    let selected := { entered with contexts, chained := true }
    if context.location.isEmpty || (selected.root.at? context.location).isNone then
      (.error (.staleContext context.location), selected)
    else
      let place := context.location.text
      let told := (selected.traceLost (available - depth) fun lost =>
        s!"context {depth} selected, discarded {lost} deeper contexts").trace
          s!"reuses context {depth} at {place}"
      (.ok ⟨context.location, context.kind⟩, { told with expanded := context.location.segments })

def start (path : FieldPath) (e : Editing) : Except Fault Cursor × Editing :=
  if path.usesContext then startAtContext path.contextDepth path e else startAtRoot e

/-- Follows segments that lead on, the first of them at `index`. -/
def descend (index : Nat) (cursor : Cursor) (e : Editing) :
    List String → Except Fault Cursor × Editing
  | [] => (.ok cursor, e)
  | segment :: rest =>
    let entered := e.enter index segment
    match cursor.advance entered.root segment with
    | .error fault => (.error fault, entered)
    | .ok next => descend (index + 1) next (entered.reach next.location) rest

/-- Comes to the context itself, when the path holds markers only. -/
def locateContext (cursor : Cursor) (e : Editing) : Except Fault Destination × Editing :=
  match cursor.location.getLast? with
  | none => (.error (.staleContext cursor.location), e)
  | some step =>
    let container := cursor.location.dropLast
    let entered := e.enter (e.progress.segmentCount - 1) step.text
    match (entered.root.at? container).bind (Place.ofStep? · step cursor.kind) with
    | none => (.error (.staleContext cursor.location), entered)
    | some place => (.ok ⟨container, place⟩, entered)

def locateEnd (cursor : Cursor) (index : Nat) (segments : List String) (last : String)
    (e : Editing) : Except Fault Destination × Editing :=
  match descend index cursor e segments with
  | (.error fault, stopped) => (.error fault, stopped)
  | (.ok container, arrived) =>
    let entered := arrived.enter (index + segments.length) last
    match container.place entered.root last with
    | .error fault => (.error fault, entered)
    | .ok place => (.ok ⟨container.location, place⟩, entered)

/-- Lays the segments of a path out behind those of the context it starts at. -/
def layOut (segments : List String) (e : Editing) : Editing :=
  let expanded := e.expanded ++ segments
  { e with expanded, progress := { e.progress with segmentCount := expanded.length } }

def locate (path : FieldPath) (e : Editing) : Except Fault Destination × Editing :=
  match start path e with
  | (.error fault, stopped) => (.error fault, stopped)
  | (.ok cursor, started) =>
    let laid := started.layOut path.segments
    match path.segments.getLast? with
    | none => locateContext cursor laid
    | some last => locateEnd cursor started.expanded.length path.segments.dropLast last laid

def follow (tags : TagTable) (path : FieldPath) (e : Editing) : Result :=
  match locate path e with
  | (.error fault, stopped) => (.error fault, stopped)
  | (.ok destination, arrived) => editDestination tags destination arrived

def prepare (e : Editing) : Editing :=
  let (op, value) := Operation.split e.request.value
  { e with progress := { e.progress with op, value } }

def attempt (tags : TagTable) (e : Editing) : Result :=
  match FieldPath.parse e.request.path with
  | .error fault => (.error (.path fault), e.prepare)
  | .ok path => follow tags path e.prepare

/-- Runs the edit of a request on a root, in the presence of contexts. -/
def run (settings : Settings) (tags : TagTable) (contexts : ContextStack) (request : Request)
    (root : Value RecordType) : Outcome × Editing :=
  match attempt tags { settings, request, root, contexts } with
  | (.ok outcome, done) => (outcome, done)
  | (.error fault, stopped) => (.faulted fault, stopped.refuse fault.message)

end FieldPatch.Editing
