import FieldPatch.Proofs.Session.Stage

namespace FieldPatch

/-- A sheet with rows of numbers, two of them from the start. -/
def RecordType.sheet : RecordType :=
  (named "Sheet").declare "rows"
    ⟨.list (.list .int), some (.list [.list [.int 1], .list [.int 2]])⟩

inductive Call where
  | edit (request : Request) (target : Object)
  | reset

namespace Session

def serve (s : Session) : Call → Session
  | .edit request target => (s.edit request target).session
  | .reset => s.reset

def after (s : Session) (calls : List Call) : Session := calls.foldl serve s

/-- What each call keeps, any calls keep. -/
theorem after_keeps {P : Session → Prop} (hc : ∀ s call, P s → P (s.serve call)) {s : Session}
    (h : P s) (calls : List Call) : P (s.after calls) := by
  induction calls generalizing s with
  | nil => exact h
  | cons call rest ih => exact ih (hc s call h)

theorem after_concat (s : Session) (calls : List Call) (call : Call) :
    s.after (calls ++ [call]) = (s.after calls).serve call := by
  rw [after, List.foldl_append]
  rfl

theorem settings_serve (s : Session) (call : Call) : (s.serve call).settings = s.settings := by
  cases call with
  | edit request target => exact settings_edit request target s
  | reset => rfl

theorem settings_after (s : Session) (calls : List Call) :
    (s.after calls).settings = s.settings :=
  after_keeps (P := fun t => t.settings = s.settings)
    (fun t call h => (settings_serve t call).trans h) rfl calls

/-- One session comes from another one by calls. -/
def Leads (s s' : Session) : Prop := ∃ calls, s' = s.after calls

theorem Leads.refl (s : Session) : s.Leads s := ⟨[], rfl⟩

theorem Leads.serve {s s' : Session} (h : s.Leads s') (call : Call) : s.Leads (s'.serve call) := by
  obtain ⟨calls, rfl⟩ := h
  exact ⟨calls ++ [call], (after_concat s calls call).symm⟩

theorem layered_inFile {s : Session} (h : s.contexts.Layered) (file : FileId) :
    (s.inFile file).contexts.Layered := by
  rw [inFile]
  split
  · exact h
  · exact ContextStack.layered_empty

end Session

/-- An edit keeps the contexts layered, wherever it leads. -/
theorem Stage.layered_turn (stage : Stage) (h : stage.contexts.Layered) :
    stage.turn.session.contexts.Layered := by
  cases stage.course with
  | passed unread root contexts closed => exact contexts ▸ h
  | astray read leads outcome root contexts =>
    exact contexts ▸ h.of_prefix (FieldPath.isPrefix_front _ _)
  | arrived read leads change account contexts last =>
    exact contexts ▸ account.layered h leads change

namespace Session

theorem layered_serve (s : Session) (call : Call) (h : s.contexts.Layered) :
    (s.serve call).contexts.Layered := by
  cases call with
  | edit request target => exact Stage.layered_turn ⟨s, target, request⟩ (layered_inFile h _)
  | reset => exact ContextStack.layered_empty

theorem layered_after (settings : Settings) (tags : TagTable) (calls : List Call) :
    ((start settings tags).1.after calls).contexts.Layered :=
  after_keeps (P := fun s => s.contexts.Layered) layered_serve ContextStack.layered_empty calls

/-- Every context of a session is a slot below the root that holds slots, and no context is the slot
of one below it on the stack or a slot around that one; so no slot is remembered twice. -/
theorem contexts_never_enclose (settings : Settings) (tags : TagTable) (calls : List Call) :
    let entries := ((start settings tags).1.after calls).contexts.entries
    (∀ c ∈ entries, c.location ≠ [] ∧ c.kind.isStructural = true) ∧
      (entries.Pairwise fun lower upper => ¬ lower.location.startsWith upper.location) ∧
      (entries.map Context.location).Nodup := by
  intro entries
  have h := layered_after settings tags calls
  exact ⟨fun c hc => ⟨h.below c hc, h.structural c hc⟩, h.order, h.nodup⟩

/-- A row inserted at a context comes on top of it, as its neighbour. -/
example :
    let target : Object := ⟨.loose 0, RecordType.sheet.fresh⟩
    let calls : List Call :=
      [.edit { path := "rows.0", value := "!^" } target,
        .edit { path := "^", value := "!+" } target]
    ((start {} []).1.after calls).contexts.entries.map (fun c => c.location.text) =
      ["rows.1", "rows.0"] := by
  decide +kernel

end Session

end FieldPatch
