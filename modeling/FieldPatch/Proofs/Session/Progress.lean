import FieldPatch.Proofs.Edit.Landed
import FieldPatch.Proofs.Session.Pointed

namespace FieldPatch

/-- Between a context and the first segment of its own that it follows, an edit shows no slot. -/
def FieldPath.Unshown (path : FieldPath) (start : Cursor) (p : Progress) : Prop :=
  path.usesContext = true ∧ p.targetKind = none ∧ 0 < p.segmentIndex ∧
    p.segmentIndex ≤ start.location.length

namespace Stage

/-- The edit faulted on its way, before it came to edit a slot. -/
structure Strands (stage : Stage) (path : FieldPath) (start : Cursor) (p : Progress) : Prop where
  fault : stage.turn.outcome.isFault = true
  size : p.segmentCount = (path.expanded start).length
  inside : p.segmentIndex < p.segmentCount
  kind : p.targetKind = none
  way : path.Way stage.target.value start p

/-- The edit came to the slot at the end of its path: the location that all segments of the path
denote. The slot was there or was made, and stays unless it is what was taken away. -/
structure LandsAt (stage : Stage) (path : FieldPath) (start : Cursor) (d : Destination)
    (p : Progress) : Prop where
  leads : path.destination stage.target.value stage.contexts = .ok d
  location : p.location = d.slot
  spelled : start.Spells stage.op stage.target.value (path.expanded start) p.location
  size : p.segmentCount = (path.expanded start).length
  last : p.segmentIndex + 1 = p.segmentCount
  atEnd : p.atEnd = true
  sound : stage.turn.outcome.isFault = false → p.faulted = false
  kind : stage.turn.outcome.isFault = true → p.targetKind = some d.place.kind
  before : stage.turn.outcome ∈ [.removed, .noOp, .contextSet] →
    (stage.target.value.at? p.location).isSome = true
  after : stage.turn.outcome ≠ .removed → (stage.turn.root.at? p.location).isSome = true

/-- The progress shows the target of the edit: the container in which the segment that it stands at
was looked up, or the slot that the segment addresses. It is the location that the segments before
this one denote, or that these and this one do. -/
def ShowsTarget (stage : Stage) (path : FieldPath) (start : Cursor) (p : Progress) : Prop :=
  ∃ n, (n = p.segmentIndex ∨ n = p.segmentIndex + 1) ∧ p.location.length = n ∧
    start.Spells stage.op stage.target.value ((path.expanded start).take n) p.location

variable {stage : Stage} {path : FieldPath} {start : Cursor} {d : Destination} {p : Progress}

theorem LandsAt.length (h : stage.LandsAt path start d p) : p.location.length = p.segmentCount :=
  h.spelled.length.trans h.size.symm

theorem LandsAt.showsTarget (h : stage.LandsAt path start d p) :
    stage.ShowsTarget path start p := by
  refine ⟨p.segmentIndex + 1, .inr rfl, h.length.trans h.last.symm, ?_⟩
  rw [h.last, h.size, List.take_length]
  exact h.spelled

/-- On its way an edit shows its target, except between a context and its own segments. -/
theorem Strands.showsTarget_iff (h : stage.Strands path start p) :
    (stage.ShowsTarget path start p ↔ ¬ path.Unshown start p) ∧
      (path.Unshown start p → p.location = []) := by
  have hsize := h.size
  have hinside := h.inside
  cases h.way with
  | shown spelled behind =>
    have hn : ¬ path.Unshown start p := fun hu => by
      have hb := behind hu.1
      have hf := hu.2.2.2
      omega
    have hlength : p.location.length = p.segmentIndex := by
      rw [(spelled stage.op).length, List.length_take]
      omega
    have hs : stage.ShowsTarget path start p :=
      ⟨p.segmentIndex, .inl rfl, hlength, spelled stage.op⟩
    exact ⟨⟨fun _ => hn, fun _ => hs⟩, fun hu => absurd hu hn⟩
  | unshown marked location front =>
    refine ⟨⟨?_, fun hn => ?_⟩, fun _ => location⟩
    · rintro ⟨n, hi, hl, -⟩ ⟨-, -, hpos, -⟩
      rw [location, List.length_nil] at hl
      omega
    · have hz : p.segmentIndex = 0 :=
        Nat.eq_zero_of_not_pos fun hpos => hn ⟨marked, h.kind, hpos, front⟩
      refine ⟨0, .inl hz.symm, by rw [location]; rfl, ?_⟩
      rw [location, List.take_zero]
      exact .root

theorem LandsAt.not_unshown (h : stage.LandsAt path start d p)
    (hf : stage.turn.outcome.isFault = true) : ¬ path.Unshown start p := by
  rintro ⟨-, hk, -⟩
  rw [h.kind hf] at hk
  contradiction

/-- An edit that is refused on its way stands where it was refused. -/
theorem Strands.of_refused {fault : Fault} {left : Editing}
    (hu : Editing.Underway path stage.target.value start left)
    (ho : stage.turn.outcome = .faulted fault) :
    stage.Strands path start (left.refuse fault.message).progress where
  fault := by rw [ho]; rfl
  size := hu.size
  inside := hu.inside
  kind := hu.kind
  way := hu.way.of_same rfl rfl

/-- An edit that has landed at its slot stands there, whether it is refused there or not. -/
theorem LandsAt.of_landed {arrived : Editing} {r : Editing.Result} {faulted : Bool}
    (hd : path.destination stage.target.value stage.contexts = .ok d)
    (ho : path.origin stage.target.value stage.contexts = .ok start)
    (hv : Editing.Arrives stage.contexts stage.request stage.target.value path d arrived)
    (hu : Editing.Underway path stage.target.value start arrived)
    (hend : arrived.progress.segmentIndex + 1 = arrived.progress.segmentCount)
    (hl : Editing.Landed d arrived.atEnd r)
    (hs : ∀ outcome, r.1 = .ok outcome → outcome.isFault = false)
    (houtcome : stage.turn.outcome = Editing.ending r) (hroot : stage.turn.root = r.2.root)
    (hf : stage.turn.outcome.isFault = false → faulted = r.2.progress.faulted) :
    stage.LandsAt path start d { r.2.progress with faulted } := by
  have hop : arrived.atEnd.progress.op = stage.op := hv.op
  have hsize : r.2.progress.segmentCount = arrived.progress.segmentCount := hl.point.size
  have hindex : r.2.progress.segmentIndex = arrived.progress.segmentIndex := hl.point.index
  have ended (outcome : Outcome) (hn : outcome.isFault = false)
      (h : stage.turn.outcome = outcome) : r.1 = .ok outcome := by
    rw [houtcome, Editing.ending] at h
    split at h
    · rename_i other hother
      rw [hother, h]
    · subst h
      contradiction
  constructor
  case leads => exact hd
  case location => exact hl.location
  case spelled =>
    change start.Spells _ _ _ r.2.progress.location
    rw [hl.location]
    exact FieldPath.spells_slot ho hd (hop ▸ hl.admits)
  case size => exact hsize.trans hu.size
  case last =>
    change r.2.progress.segmentIndex + 1 = r.2.progress.segmentCount
    rw [hindex, hsize, hend]
  case atEnd => exact hl.point.atEnd
  case sound =>
    intro hn
    have hp : r.2.progress.faulted = arrived.progress.faulted := hl.point.sound
    rw [hf hn, hp]
    exact hu.sound
  case kind =>
    intro hfault
    cases he : r.1 with
    | error fault => exact hl.kind fault he
    | ok outcome =>
      rw [houtcome, Editing.ending, he] at hfault
      rw [hs outcome he] at hfault
      contradiction
  case before =>
    intro hm
    change (stage.target.value.at? r.2.progress.location).isSome = true
    rw [hl.location, ← hv.root]
    refine hl.before ?_
    simp only [List.mem_cons, List.not_mem_nil, or_false] at hm
    exact hm.imp (ended _ rfl) (Or.imp (ended _ rfl) (ended _ rfl))
  case after =>
    intro hn
    change (stage.turn.root.at? r.2.progress.location).isSome = true
    rw [hl.location, hroot]
    refine hl.after fun hr => hn ?_
    rw [houtcome, Editing.ending, hr]

/-- What is left of an edit that is attempted is what its run leaves. -/
theorem turn_of_run (ha : stage.Attempted) :
    let run := stage.session.runEdit stage.request stage.target
    stage.turn.session.last = some run.2.progress ∧ stage.turn.outcome = run.1 ∧
      stage.turn.root = run.2.root := by
  intro run
  obtain ⟨notes, he⟩ := Session.edit_given ha.1 ha.2
  have ht : stage.turn = _ := he
  rw [ht]
  exact ⟨rfl, rfl, rfl⟩

/-- An edit that has come to its destination lands at the slot there, or strands before it. -/
theorem stands_of_settled {arrived : Editing} {r : Editing.Result}
    (hd : path.destination stage.target.value stage.contexts = .ok d)
    (ho : path.origin stage.target.value stage.contexts = .ok start)
    (hv : Editing.Arrives stage.contexts stage.request stage.target.value path d arrived)
    (hu : Editing.Underway path stage.target.value start arrived)
    (hend : arrived.progress.segmentIndex + 1 = arrived.progress.segmentCount)
    (hr : Editing.Settles d arrived.atEnd r)
    (hs : ∀ outcome, r.1 = .ok outcome → outcome.isFault = false)
    (houtcome : stage.turn.outcome = (Editing.concluded r).1)
    (hroot : stage.turn.root = (Editing.concluded r).2.root) :
    stage.Strands path start (Editing.concluded r).2.progress ∨
      ∃ d, stage.LandsAt path start d (Editing.concluded r).2.progress := by
  obtain ⟨first, done⟩ := r
  cases first with
  | ok outcome =>
    cases hr with
    | landed landed =>
      exact .inr ⟨d, .of_landed hd ho hv hu hend landed hs houtcome hroot fun _ => rfl⟩
    | short refused progress => contradiction
  | error fault =>
    cases hr with
    | landed landed =>
      refine .inr ⟨d, .of_landed hd ho hv hu hend landed hs houtcome hroot fun hn => ?_⟩
      rw [houtcome] at hn
      contradiction
    | short refused progress => exact .inl (.of_refused (hu.of_progress progress) houtcome)

/-- An edit that has started stands somewhere on its way, or at the slot where its path ends. -/
theorem stands (hp : stage.path? = some path)
    (ho : path.origin stage.target.value stage.contexts = .ok start) :
    ∃ p, stage.turn.session.last = some p ∧
      (stage.Strands path start p ∨ ∃ d, stage.LandsAt path start d p) := by
  obtain ⟨ha, hparse⟩ := attempted_of_read hp
  obtain ⟨hlast, houtcome, hroot⟩ := turn_of_run ha
  let e : Editing := Editing.prepare
    { settings := stage.session.settings, request := stage.request, root := stage.target.value,
      contexts := stage.contexts }
  have hblank : e.Blank := ⟨rfl, rfl, rfl, rfl⟩
  obtain ⟨hu, hend⟩ := Editing.locate_underway hblank (FieldPath.plain_of_parse hparse) ho
  refine ⟨_, hlast, ?_⟩
  cases hd : path.destination stage.target.value stage.contexts with
  | error fault =>
    have hrun : stage.session.runEdit stage.request stage.target =
        Editing.concluded (.error fault, (Editing.locate path e).2) :=
      Editing.run_of_lost stage.session.settings stage.session.tags hparse hd
    rw [hrun] at houtcome ⊢
    exact .inl (.of_refused hu houtcome)
  | ok d =>
    obtain ⟨hl, hv⟩ := Editing.locate_arrives stage.session.settings stage.request hd
    have hrun : stage.session.runEdit stage.request stage.target = Editing.concluded
        (Editing.editDestination stage.session.tags d (Editing.locate path e).2) :=
      Editing.run_of_leads stage.session.settings stage.session.tags hparse hd
    have hsettle : Editing.Settles d (Editing.locate path e).2.atEnd
        (Editing.editDestination stage.session.tags d (Editing.locate path e).2) :=
      Editing.editDestination_settles (hv.root ▸ hv.held)
    obtain ⟨verbs, hreported⟩ :=
      Editing.editDestination_reported stage.session.tags (Editing.locate path e).2 d
    rw [hrun] at houtcome hroot ⊢
    exact stands_of_settled hd ho hv hu (hend d hl) hsettle hreported.sound houtcome hroot

theorem outcome_of_not_attempted (h : ¬ stage.Attempted) :
    stage.turn.outcome = .skipped ∨ stage.turn.outcome = .ignored := by
  by_cases hl : stage.session.Latched (.ofEdit stage.request stage.target.id)
  · obtain ⟨notes, he⟩ := Session.edit_latched hl
    have ht : stage.turn = _ := he
    exact .inl (by rw [ht])
  · have hv : Session.isVoid stage.request = true := by
      cases hv : Session.isVoid stage.request with
      | true => rfl
      | false => exact absurd ⟨hl, hv⟩ h
    obtain ⟨notes, he⟩ := Session.edit_void hl hv
    have ht : stage.turn = _ := he
    exact .inr (by rw [ht])

theorem outcome_of_unread {fault : PathFault} (ha : stage.Attempted)
    (hp : FieldPath.parse stage.request.path = .error fault) :
    stage.turn.outcome = .faulted (.path fault) := by
  obtain ⟨-, houtcome, -⟩ := turn_of_run ha
  rw [houtcome]
  exact (Editing.run_unread hp).1

theorem outcome_of_astray {fault : Fault} (hp : stage.path? = some path)
    (hd : path.destination stage.target.value stage.contexts = .error fault) :
    stage.turn.outcome = .faulted fault := by
  cases stage.course with
  | passed unread => cases hp.symm.trans unread
  | astray read leads outcome =>
    obtain rfl := Option.some.inj (hp.symm.trans read)
    cases hd.symm.trans leads
    exact outcome
  | arrived read leads =>
    obtain rfl := Option.some.inj (hp.symm.trans read)
    cases hd.symm.trans leads

/-- An edit that was attempted and did not fault has a path that starts somewhere. -/
theorem started_of_success (ha : stage.turn.outcome.isAttempt = true)
    (hf : stage.turn.outcome.isFault = false) :
    ∃ path start, stage.path? = some path ∧
      path.origin stage.target.value stage.contexts = .ok start := by
  have faultless (fault : Fault) (ho : stage.turn.outcome = .faulted fault) : False := by
    rw [ho] at hf
    contradiction
  by_cases hn : stage.Attempted
  · cases hp : FieldPath.parse stage.request.path with
    | error fault => exact (faultless _ (outcome_of_unread hn hp)).elim
    | ok path =>
      have hread : stage.path? = some path := by rw [path?_of_attempted hn, hp]; rfl
      cases ho : path.origin stage.target.value stage.contexts with
      | ok start => exact ⟨path, start, hread, ho⟩
      | error fault =>
        have hd : path.destination stage.target.value stage.contexts = .error fault := by
          rw [FieldPath.destination, ho]
        exact (faultless _ (outcome_of_astray hread hd)).elim
  · rcases outcome_of_not_attempted hn with ho | ho
    · rw [ho] at ha
      contradiction
    · rw [ho] at ha
      contradiction

end Stage

namespace Session

/-- In whatever state a session is: an edit that changed something, found nothing to change or set a
context has gone to the end of its path. What the session remembers of it is the slot there, one
step for each segment of the path from the root. -/
theorem success_ends_at_slot (s : Session) (request : Request) (target : Object) :
    let stage : Stage := ⟨s, target, request⟩
    stage.turn.outcome ∈ [.applied, .incomplete, .removed, .noOp, .contextSet] →
      ∃ path start d p, stage.path? = some path ∧
        path.origin target.value stage.contexts = .ok start ∧
        stage.turn.session.last = some p ∧ p.faulted = false ∧
        p.location.length = p.segmentCount ∧ stage.LandsAt path start d p := by
  intro stage h
  obtain ⟨ha, hf⟩ : stage.turn.outcome.isAttempt = true ∧ stage.turn.outcome.isFault = false := by
    simp only [List.mem_cons, List.not_mem_nil, or_false] at h
    rcases h with h | h | h | h | h
    all_goals
      rw [h]
      exact ⟨rfl, rfl⟩
  obtain ⟨path, start, hp, ho⟩ := Stage.started_of_success ha hf
  obtain ⟨p, hl, hs | ⟨d, hd⟩⟩ := Stage.stands hp ho
  · have hfault := hs.fault
    rw [hf] at hfault
    contradiction
  · exact ⟨path, start, d, p, hp, ho, hl, hd.sound hf, hd.length, hd⟩

/-- A number comes to the end of the first row, behind the rows of the sheet as context. -/
theorem row_ends_at_number :
    let target : Object := ⟨.loose 0, RecordType.sheet.fresh⟩
    let s := (start {} []).1.after [.edit { path := "rows", value := "!^" } target]
    let stage : Stage := ⟨s, target, { path := "^.0.9", value := "5 !+" }⟩
    stage.turn.outcome ∈ [.applied, .incomplete, .removed, .noOp, .contextSet] ∧
      ∃ path start d p, stage.path? = some path ∧
        path.origin target.value stage.contexts = .ok start ∧
        stage.turn.session.last = some p ∧ p.location = [.field "rows", .index 0, .index 1] ∧
        stage.LandsAt path start d p := by
  intro target s stage
  have hm : stage.turn.outcome ∈ [.applied, .incomplete, .removed, .noOp, .contextSet] := by
    have hc : stage.turn.outcome.mutated = true := by decide +kernel
    cases ho : stage.turn.outcome <;> simp_all [Outcome.mutated]
  obtain ⟨path, start, d, p, hp, hs, hl, -, -, hd⟩ := success_ends_at_slot s _ target hm
  have hlast : stage.turn.session.last.map Progress.location =
      some [.field "rows", .index 0, .index 1] := by decide +kernel
  rw [hl] at hlast
  exact ⟨hm, path, start, d, p, hp, hs, hl, Option.some.inj hlast, hd⟩

/-- In whatever state a session is: what it remembers of a faulted edit, whose path started at the
root or at a context, is the target of the edit, unless it stands right behind a context. There it
is still the root. -/
theorem fault_shows_target_iff (s : Session) (request : Request) (target : Object)
    {path : FieldPath} {start : Cursor} :
    let stage : Stage := ⟨s, target, request⟩
    stage.path? = some path → path.origin target.value stage.contexts = .ok start →
      stage.turn.outcome.isFault = true →
        ∃ p, stage.turn.session.last = some p ∧
          (stage.ShowsTarget path start p ↔ ¬ path.Unshown start p) ∧
          (path.Unshown start p → p.location = []) := by
  intro stage hp ho hf
  obtain ⟨p, hl, hs | ⟨d, hd⟩⟩ := Stage.stands hp ho
  · exact ⟨p, hl, hs.showsTarget_iff⟩
  · have hn := hd.not_unshown hf
    exact ⟨p, hl, ⟨fun _ => hn, fun _ => hd.showsTarget⟩, fun hu => absurd hu hn⟩

theorem cursor_of_location {found : Except Fault Cursor} {l : Location}
    (h : found.toOption.map Cursor.location = some l) :
    ∃ cursor, found = .ok cursor ∧ cursor.location = l := by
  obtain ⟨cursor, hc, hl⟩ := Option.map_eq_some_iff.mp h
  cases found with
  | error fault => contradiction
  | ok other => exact ⟨cursor, congrArg _ (Option.some.inj hc), hl⟩

/-- The first row has no eighth number; what is remembered is the row. -/
theorem row_fault_shows_row :
    let target : Object := ⟨.loose 0, RecordType.sheet.fresh⟩
    let s := (start {} []).1.after [.edit { path := "rows", value := "!^" } target]
    let stage : Stage := ⟨s, target, { path := "^.0.7", value := "5" }⟩
    let path : FieldPath := ⟨1, ["0", "7"]⟩
    stage.path? = some path ∧ stage.turn.outcome.isFault = true ∧
      ∃ rows p, path.origin target.value stage.contexts = .ok rows ∧
        stage.turn.session.last = some p ∧ p.location = [.field "rows", .index 0] ∧
        stage.ShowsTarget path rows p := by
  intro target s stage path
  have hp : stage.path? = some path := by decide +kernel
  have hrows : (path.origin target.value stage.contexts).toOption.map Cursor.location =
      some [.field "rows"] := by decide +kernel
  obtain ⟨rows, ho, hstart⟩ := cursor_of_location hrows
  have hf : stage.turn.outcome.isFault = true := by decide +kernel
  obtain ⟨p, hl, hs, -⟩ := fault_shows_target_iff s stage.request target hp ho hf
  have hlast : stage.turn.session.last.map (fun p => (p.location, p.segmentIndex)) =
      some ([.field "rows", .index 0], 2) := by decide +kernel
  rw [hl] at hlast
  obtain ⟨hlocation, hindex⟩ := Prod.mk.inj (Option.some.inj hlast)
  refine ⟨hp, hf, rows, p, ho, hl, hlocation, hs.mpr ?_⟩
  rintro ⟨-, -, -, hfront⟩
  rw [hstart, hindex] at hfront
  contradiction

/-- The segment behind the rows as context is no index; what is remembered is not the rows, in which
it was looked up, but the root. -/
theorem context_fault_shows_root :
    let target : Object := ⟨.loose 0, RecordType.sheet.fresh⟩
    let s := (start {} []).1.after [.edit { path := "rows", value := "!^" } target]
    let stage : Stage := ⟨s, target, { path := "^.x", value := "5" }⟩
    let path : FieldPath := ⟨1, ["x"]⟩
    stage.path? = some path ∧ stage.turn.outcome.isFault = true ∧
      ∃ rows p, path.origin target.value stage.contexts = .ok rows ∧
        stage.turn.session.last = some p ∧ p.location = [] ∧ p.segmentIndex = 1 ∧
        ¬ stage.ShowsTarget path rows p := by
  intro target s stage path
  have hp : stage.path? = some path := by decide +kernel
  have hrows : (path.origin target.value stage.contexts).toOption.map Cursor.location =
      some [.field "rows"] := by decide +kernel
  obtain ⟨rows, ho, -⟩ := cursor_of_location hrows
  have hf : stage.turn.outcome.isFault = true := by decide +kernel
  have hlast : stage.turn.session.last.map (fun p => (p.location, p.segmentIndex)) =
      some ([], 1) := by decide +kernel
  obtain ⟨p, hl, he⟩ := Option.map_eq_some_iff.mp hlast
  obtain ⟨hlocation, hindex⟩ := Prod.mk.inj he
  refine ⟨hp, hf, rows, p, ho, hl, hlocation, hindex, ?_⟩
  rintro ⟨n, hn, hlength, -⟩
  rw [hlocation, List.length_nil] at hlength
  omega

end Session

end FieldPatch
