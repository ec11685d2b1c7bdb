import FieldPatch.Edit.Run
import FieldPatch.Proofs.Slot.Reach

namespace FieldPatch

namespace Cursor

def walk (root : Value RecordType) (cursor : Cursor) : List String → Except Fault Cursor
  | [] => .ok cursor
  | segment :: rest =>
    match cursor.advance root segment with
    | .error fault => .error fault
    | .ok next => next.walk root rest

/-- The slot under the cursor itself, as a place of its container. -/
def own (root : Value RecordType) (cursor : Cursor) : Except Fault Destination :=
  match cursor.location.getLast? with
  | none => .error (.staleContext cursor.location)
  | some step =>
    match (root.at? cursor.location.dropLast).bind (Place.ofStep? · step cursor.kind) with
    | none => .error (.staleContext cursor.location)
    | some place => .ok ⟨cursor.location.dropLast, place⟩

/-- The place that the last segment addresses, at the end of the others. -/
def destination (root : Value RecordType) (cursor : Cursor) (segments : List String)
    (last : String) : Except Fault Destination :=
  match cursor.walk root segments with
  | .error fault => .error fault
  | .ok container =>
    match container.place root last with
    | .error fault => .error fault
    | .ok place => .ok ⟨container.location, place⟩

end Cursor

namespace FieldPath

/-- Where a path starts: at the root, or at a context. -/
def origin (root : Value RecordType) (contexts : ContextStack) (path : FieldPath) :
    Except Fault Cursor :=
  if path.usesContext then
    match contexts.get? path.contextDepth with
    | none => .error (.contextDepth path.contextDepth contexts.size)
    | some context =>
      if context.location.isEmpty || (root.at? context.location).isNone then
        .error (.staleContext context.location)
      else .ok ⟨context.location, context.kind⟩
  else
    match root with
    | .record type _ => .ok ⟨[], .record type⟩
    | root => .error (.rootNotRecord root.sort)

def destination (root : Value RecordType) (contexts : ContextStack) (path : FieldPath) :
    Except Fault Destination :=
  match path.origin root contexts with
  | .error fault => .error fault
  | .ok cursor =>
    match path.segments.getLast? with
    | none => cursor.own root
    | some last => cursor.destination root path.segments.dropLast last

end FieldPath

namespace Editing

/-- The second state comes from the first by following a path: the config and what is asked of it
are the same, and of the contexts a front part is left. -/
structure Follows (e e' : Editing) : Prop where
  root : e'.root = e.root
  op : e'.progress.op = e.progress.op
  value : e'.progress.value = e.progress.value
  contexts : e'.contexts.entries <+: e.contexts.entries

theorem Follows.refl (e : Editing) : e.Follows e := ⟨rfl, rfl, rfl, List.prefix_refl _⟩

theorem Follows.trans {a b c : Editing} (h : a.Follows b) (h' : b.Follows c) : a.Follows c :=
  ⟨h'.root.trans h.root, h'.op.trans h.op, h'.value.trans h.value, h'.contexts.trans h.contexts⟩

theorem follows_enter (e : Editing) (index : Nat) (segment : String) :
    e.Follows (e.enter index segment) := ⟨rfl, rfl, rfl, List.prefix_refl _⟩

theorem follows_reach (e : Editing) (location : Location) : e.Follows (e.reach location) :=
  ⟨rfl, rfl, rfl, List.prefix_refl _⟩

theorem follows_layOut (e : Editing) (segments : List String) : e.Follows (e.layOut segments) :=
  ⟨rfl, rfl, rfl, List.prefix_refl _⟩

theorem start_spec (path : FieldPath) (e : Editing) :
    (start path e).1 = path.origin e.root e.contexts ∧ e.Follows (start path e).2 := by
  unfold start FieldPath.origin
  split
  · simp only [startAtContext, ContextStack.select?]
    cases hg : e.contexts.get? path.contextDepth with
    | none => exact ⟨rfl, rfl, rfl, rfl, List.prefix_refl _⟩
    | some context =>
      simp only [Option.map_some]
      split
      · exact ⟨rfl, rfl, rfl, rfl, List.take_prefix _ _⟩
      · exact ⟨rfl, by simp, by simp, by simp, by simpa using List.take_prefix _ _⟩
  · rw [startAtRoot]
    cases e.root <;> exact ⟨rfl, .refl e⟩

theorem descend_spec (index : Nat) (cursor : Cursor) (e : Editing) (segments : List String) :
    (descend index cursor e segments).1 = cursor.walk e.root segments ∧
      e.Follows (descend index cursor e segments).2 := by
  induction segments generalizing index cursor e with
  | nil => exact ⟨rfl, .refl e⟩
  | cons segment rest ih =>
    have he := follows_enter e index segment
    simp only [descend, Cursor.walk, root_enter]
    cases ha : cursor.advance e.root segment with
    | error fault => exact ⟨rfl, he⟩
    | ok next =>
      have hr := follows_reach (e.enter index segment) next.location
      obtain ⟨h, hf⟩ := ih (index + 1) next ((e.enter index segment).reach next.location)
      exact ⟨h, (he.trans hr).trans hf⟩

theorem locateContext_spec (cursor : Cursor) (e : Editing) :
    (locateContext cursor e).1 = cursor.own e.root ∧ e.Follows (locateContext cursor e).2 := by
  unfold locateContext Cursor.own
  cases cursor.location.getLast? with
  | none => exact ⟨rfl, .refl e⟩
  | some step =>
    have he := follows_enter e (e.progress.segmentCount - 1) step.text
    simp only [root_enter]
    cases (e.root.at? cursor.location.dropLast).bind (Place.ofStep? · step cursor.kind) with
    | none => exact ⟨rfl, he⟩
    | some place => exact ⟨rfl, he⟩

theorem locateEnd_spec (cursor : Cursor) (index : Nat) (segments : List String) (last : String)
    (e : Editing) :
    (locateEnd cursor index segments last e).1 = cursor.destination e.root segments last ∧
      e.Follows (locateEnd cursor index segments last e).2 := by
  obtain ⟨hd, hf⟩ := descend_spec index cursor e segments
  unfold locateEnd Cursor.destination
  rw [← hd]
  generalize descend index cursor e segments = r at hf
  obtain ⟨(fault | container), arrived⟩ := r
  · exact ⟨rfl, hf⟩
  · have he := hf.trans (follows_enter arrived (index + segments.length) last)
    have hr : arrived.root = e.root := hf.root
    simp only [root_enter, hr]
    cases container.place e.root last with
    | error fault => exact ⟨rfl, he⟩
    | ok place => exact ⟨rfl, he⟩

/-- Following a path leads to its destination and changes nothing that an edit changes. -/
theorem locate_spec (path : FieldPath) (e : Editing) :
    (locate path e).1 = path.destination e.root e.contexts ∧ e.Follows (locate path e).2 := by
  obtain ⟨hs, hf⟩ := start_spec path e
  unfold locate FieldPath.destination
  rw [← hs]
  generalize start path e = r at hf
  obtain ⟨(fault | cursor), started⟩ := r
  · exact ⟨rfl, hf⟩
  · have hl := hf.trans (follows_layOut started path.segments)
    dsimp only
    rw [← hl.root]
    cases path.segments.getLast? with
    | none =>
      obtain ⟨h, hf'⟩ := locateContext_spec cursor (started.layOut path.segments)
      exact ⟨h, hl.trans hf'⟩
    | some last =>
      obtain ⟨h, hf'⟩ := locateEnd_spec cursor started.expanded.length path.segments.dropLast last
        (started.layOut path.segments)
      exact ⟨h, hl.trans hf'⟩

end Editing

end FieldPatch
