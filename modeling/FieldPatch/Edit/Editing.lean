import FieldPatch.Context.Stack
import FieldPatch.Diagnostic
import FieldPatch.Path.Operation
import FieldPatch.Settings

namespace FieldPatch

/-- How far an edit got: the operation and value in force, the slot reached, and the segment the
edit stands at. -/
structure Progress where
  op : Operation := .overwrite
  value : String := ""
  location : Location := []
  targetKind : Option (Kind RecordType) := none
  segment : String := ""
  segmentIndex : Nat := 0
  segmentCount : Nat := 0
  atEnd : Bool := false
  faulted : Bool := false

def Progress.stepInfo? (p : Progress) : Option StepInfo :=
  if p.segmentCount = 0 then none else some ⟨p.segment, p.segmentIndex + 1, p.segmentCount⟩

/-- The state of one edit under way. -/
structure Editing where
  settings : Settings
  request : Request
  root : Value RecordType
  contexts : ContextStack
  progress : Progress := {}
  expanded : List String := []
  /-- The edit started at a context or has set one, so the next context joins the chain. -/
  chained : Bool := false
  notes : List Diagnostic := []

namespace Editing

/-- The path as diagnostics show it: from the root when that is known, as requested otherwise. -/
def shownPath (e : Editing) : String :=
  if e.expanded.isEmpty then e.request.path else Segment.join e.expanded

/-- Reports something about the edit, as far as the settings let it through. -/
def note (channel : Channel) (verb : Verb) (detail : String) (e : Editing) : Editing :=
  let d : Diagnostic := { channel, verb, request := e.request, path := e.shownPath, detail }
  { e with notes := e.notes ++ e.settings.report d }

def info (detail : String) (e : Editing) : Editing := e.note .info .edits detail

def noEffect (detail : String) (e : Editing) : Editing := e.note .info .attempts detail

def trace (detail : String) (e : Editing) : Editing := e.note .context .edits detail

/-- Reports a fault, with the segment the edit stands at. -/
def refuse (fault : String) (e : Editing) : Editing :=
  let d : Diagnostic :=
    { channel := .fault, verb := .attempts, request := e.request, path := e.shownPath,
      step := e.progress.stepInfo?, detail := fault }
  { e with
    progress := { e.progress with faulted := true }
    notes := e.notes ++ e.settings.report d }

def enter (index : Nat) (segment : String) (e : Editing) : Editing :=
  { e with progress := { e.progress with
      segment, segmentIndex := index, atEnd := index + 1 == e.progress.segmentCount } }

def reach (location : Location) (e : Editing) : Editing :=
  { e with progress := { e.progress with location } }

def aim (location : Location) (kind : Kind RecordType) (e : Editing) : Editing :=
  { e with progress := { e.progress with location, targetKind := some kind } }

/-- Puts a value into the slot at `location`, whose contexts stay. -/
def amend (location : Location) (value : Value RecordType) (e : Editing) : Editing :=
  { e with root := (e.root.replace? location value).getD e.root }

def traceLost (lost : Nat) (detail : Nat → String) (e : Editing) : Editing :=
  if 0 < lost then e.trace (detail lost) else e

/-- Puts another value into the slot at `location`; the contexts inside the old one are lost. -/
def assign (location : Location) (value : Value RecordType) (e : Editing) : Editing :=
  let (lost, contexts) := e.contexts.discardWithin location false
  let place := location.text
  { e.amend location value with contexts }.traceLost lost fun lost =>
    s!"discarded {lost} contexts inside replaced {place}"

/-- The first context of an edit that did not start at one opens a new chain. -/
def openChain (e : Editing) : Editing :=
  let lost := if e.chained then 0 else e.contexts.size
  { e with
    contexts := if e.chained then e.contexts else .empty
    chained := true }.traceLost lost fun lost =>
      s!"new context chain, discarded {lost} contexts"

/-- Remembers a slot as the newest context; the context on top is not set again. -/
def setContext (location : Location) (kind : Kind RecordType) (e : Editing) : Editing :=
  let opened := e.openChain
  let place := location.text
  if opened.contexts.top?.map Context.location = some location then
    let depth := opened.contexts.size
    opened.trace s!"context {depth} already set to {place}"
  else
    let contexts := opened.contexts.push ⟨location, kind, opened.progress.segment⟩
    let depth := contexts.size
    { opened with contexts }.trace s!"context {depth} set to {place}"

section Frame

variable (e : Editing) (channel : Channel) (verb : Verb) (detail : String) (index : Nat)
  (segment : String) (location : Location) (kind : Kind RecordType) (value : Value RecordType)
  (lost : Nat) (text : Nat → String)

@[simp] theorem root_note : (e.note channel verb detail).root = e.root := rfl

@[simp] theorem contexts_note : (e.note channel verb detail).contexts = e.contexts := rfl

@[simp] theorem root_info : (e.info detail).root = e.root := rfl

@[simp] theorem contexts_info : (e.info detail).contexts = e.contexts := rfl

@[simp] theorem root_noEffect : (e.noEffect detail).root = e.root := rfl

@[simp] theorem contexts_noEffect : (e.noEffect detail).contexts = e.contexts := rfl

@[simp] theorem root_trace : (e.trace detail).root = e.root := rfl

@[simp] theorem contexts_trace : (e.trace detail).contexts = e.contexts := rfl

@[simp] theorem progress_trace : (e.trace detail).progress = e.progress := rfl

@[simp] theorem root_refuse : (e.refuse detail).root = e.root := rfl

@[simp] theorem contexts_refuse : (e.refuse detail).contexts = e.contexts := rfl

@[simp] theorem root_enter : (e.enter index segment).root = e.root := rfl

@[simp] theorem contexts_enter : (e.enter index segment).contexts = e.contexts := rfl

@[simp] theorem root_reach : (e.reach location).root = e.root := rfl

@[simp] theorem contexts_reach : (e.reach location).contexts = e.contexts := rfl

@[simp] theorem root_aim : (e.aim location kind).root = e.root := rfl

@[simp] theorem contexts_aim : (e.aim location kind).contexts = e.contexts := rfl

@[simp] theorem contexts_amend : (e.amend location value).contexts = e.contexts := rfl

theorem root_amend {changed : Value RecordType}
    (h : e.root.replace? location value = some changed) :
    (e.amend location value).root = changed := by simp [amend, h]

theorem at?_root_amend {old : Value RecordType} (h : e.root.at? location = some old) :
    (e.amend location value).root.at? location = some value := by
  have hs := Value.isSome_replace? e.root value location
  rw [h] at hs
  obtain ⟨changed, hc⟩ := Option.isSome_iff_exists.mp hs
  rw [root_amend e location value hc]
  exact Value.at?_of_replace? hc

@[simp] theorem root_traceLost : (e.traceLost lost text).root = e.root := by
  unfold traceLost; split <;> rfl

@[simp] theorem contexts_traceLost : (e.traceLost lost text).contexts = e.contexts := by
  unfold traceLost; split <;> rfl

@[simp] theorem progress_traceLost : (e.traceLost lost text).progress = e.progress := by
  unfold traceLost; split <;> rfl

@[simp] theorem root_assign : (e.assign location value).root = (e.amend location value).root := by
  simp [assign]

@[simp] theorem contexts_assign :
    (e.assign location value).contexts = (e.contexts.discardWithin location false).2 := by
  simp [assign]

@[simp] theorem root_openChain : e.openChain.root = e.root := by simp [openChain]

@[simp] theorem contexts_openChain :
    e.openChain.contexts = if e.chained then e.contexts else .empty := by simp [openChain]

@[simp] theorem root_setContext : (e.setContext location kind).root = e.root := by
  simp only [setContext]
  split <;> simp

/-- Either the slot is on top already, or it comes on top. -/
theorem contexts_setContext :
    (e.setContext location kind).contexts = e.openChain.contexts ∨
      (e.setContext location kind).contexts =
        e.openChain.contexts.push ⟨location, kind, e.openChain.progress.segment⟩ := by
  simp only [setContext]
  split
  · exact .inl rfl
  · exact .inr rfl

end Frame

end Editing

end FieldPatch
