import FieldPatch.Proofs.Edit.Pointed
import FieldPatch.Proofs.Session.Arrival
import FieldPatch.Proofs.Session.Calls
import FieldPatch.Proofs.Session.Told

namespace FieldPatch

/-- An edit leaves contexts that a path can name, wherever it leads. -/
theorem Stage.plain_turn (stage : Stage) (h : stage.contexts.Plain) :
    stage.turn.session.contexts.Plain := by
  cases stage.course with
  | passed unread root contexts closed => exact contexts ▸ h
  | astray read leads outcome root contexts =>
    exact contexts ▸ h.of_prefix (FieldPath.isPrefix_front _ _)
  | arrived read leads change account contexts last =>
    have hp := FieldPath.plain_of_parse (attempted_of_read read).2
    have hd := FieldPath.plain_of_destination h hp leads
    exact contexts ▸ account.plain h hd

namespace Session

variable {s : Session}

theorem plain_inFile (h : s.contexts.Plain) (file : FileId) : (s.inFile file).contexts.Plain := by
  rw [inFile]
  split
  · exact h
  · exact ContextStack.plain_empty

theorem plain_serve (s : Session) (call : Call) (h : s.contexts.Plain) :
    (s.serve call).contexts.Plain := by
  cases call with
  | edit request target => exact Stage.plain_turn ⟨s, target, request⟩ (plain_inFile h _)
  | reset => exact ContextStack.plain_empty

theorem plain_after (settings : Settings) (tags : TagTable) (calls : List Call) :
    ((start settings tags).1.after calls).contexts.Plain :=
  after_keeps (P := fun s => s.contexts.Plain) plain_serve ContextStack.plain_empty calls

/-- What a skipped edit reports is no fault. -/
theorem channel_of_skipNotes {request : Request} :
    ∀ n ∈ s.skipNotes request, n.channel = .info := by
  intro n hn
  rcases s.settings.report_cases
    (remark .info request "skipped, an earlier edit to this file faulted") with h | h
  · rw [skipNotes, h] at hn
    contradiction
  · rw [skipNotes, h] at hn
    rw [List.mem_singleton.mp hn]
    rfl

theorem editFile_pointed (hc : s.contexts.Plain) (request : Request) (root : Value RecordType)
    {d : Diagnostic} (hd : d ∈ (s.editFile request root).notes) (hf : d.channel = .fault) :
    ∃ fault, (s.editFile request root).outcome = .faulted fault ∧ d.Locates fault := by
  cases hv : isVoid request with
  | true =>
    rw [editFile_of_void hv] at hd
    contradiction
  | false =>
    rw [editFile_of_given hv] at hd ⊢
    exact Editing.run_pointed s.tags hc request root hd hf

theorem edit_pointed (hc : s.contexts.Plain) (request : Request) (target : Object)
    {d : Diagnostic} (hd : d ∈ (s.edit request target).notes) (hf : d.channel = .fault) :
    ∃ fault, (s.edit request target).outcome = .faulted fault ∧ d.Locates fault := by
  by_cases hs : s.Latched (.ofEdit request target.id)
  · rw [edit_of_latched hs] at hd
    have hi := channel_of_skipNotes d hd
    rw [hf] at hi
    contradiction
  · rw [edit_of_free hs] at hd ⊢
    rcases List.mem_append.mp hd with hm | hm
    · have hi := channel_of_fileNotes d hm
      rw [hf] at hi
      contradiction
    · exact editFile_pointed (plain_inFile hc _) request target.value hm hf

/-- In whatever state a session is, what an edit reports on the fault channel is the fault that it
ends in, at a segment of the path that the report shows: the one at its position, of as many as it
counts. Only a text that is no path and a root that is no record are reported at no segment. -/
theorem faults_point_at_segments (settings : Settings) (tags : TagTable) (calls : List Call)
    (request : Request) (target : Object) :
    let turn := ((start settings tags).1.after calls).edit request target
    ∀ d ∈ turn.notes, d.channel = .fault →
      ∃ fault, turn.outcome = .faulted fault ∧ d.Locates fault := by
  intro turn d hd hf
  have hc := plain_after settings tags calls
  exact edit_pointed hc request target hd hf

/-- With the rows of a sheet as context, a path to an eighth number in the first row is refused at
its last segment, and spelled out. -/
theorem rows_fault_points_at_number :
    let target : Object := ⟨.loose 0, RecordType.sheet.fresh⟩
    let s := (start {} []).1.after [.edit { path := "rows", value := "!^" } target]
    let request : Request := { path := "^.0.7", value := "5" }
    let turn := s.edit request target
    let d : Diagnostic :=
      { channel := .fault, verb := .attempts, request, path := "rows.0.7",
        step := some ⟨"7", 3, 3⟩,
        detail := "overwrite on index 7 is out of bounds for list size 1" }
    d ∈ turn.notes ∧ d.channel = .fault ∧
      ∃ fault, turn.outcome = .faulted fault ∧ d.Locates fault := by
  intro target s request turn d
  have hd : d ∈ turn.notes := by decide +kernel
  exact ⟨hd, rfl, faults_point_at_segments {} [] _ request target d hd rfl⟩

end Session

end FieldPatch
