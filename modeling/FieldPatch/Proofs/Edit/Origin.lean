import FieldPatch.Proofs.Edit.Change
import FieldPatch.Proofs.Edit.Residue

namespace FieldPatch

theorem FieldPath.usesContext_iff {path : FieldPath} :
    path.usesContext = true ↔ 0 < path.contextDepth := decide_eq_true_iff

/-- The contexts that an edit of a path works on: those up to the context that it starts at, all of
them if it starts at the root. -/
def FieldPath.front (contexts : ContextStack) (path : FieldPath) : ContextStack :=
  if path.usesContext then ⟨contexts.entries.take path.contextDepth⟩ else contexts

/-- What an edit of a path comes to, when the path leads to the destination. -/
def Destination.site (op : Operation) (value : String) (contexts : ContextStack) (path : FieldPath)
    (d : Destination) : Site :=
  ⟨d.slot, d.place.kind, d.rebase op value, path.front contexts, path.usesContext⟩

namespace Editing

/-- The second state has the contexts of the first one, as part of the same chain. -/
structure Stays (e e' : Editing) : Prop where
  contexts : e'.contexts = e.contexts
  chained : e'.chained = e.chained

theorem descend_stays (index : Nat) (cursor : Cursor) (e : Editing) (segments : List String) :
    e.Stays (descend index cursor e segments).2 := by
  induction segments generalizing index cursor e with
  | nil => exact ⟨rfl, rfl⟩
  | cons segment rest ih =>
    simp only [descend]
    split
    · exact ⟨rfl, rfl⟩
    · rename_i next ha
      obtain ⟨hc, hj⟩ := ih (index + 1) next ((e.enter index segment).reach next.location)
      exact ⟨hc, hj⟩

theorem locateContext_stays (cursor : Cursor) (e : Editing) :
    e.Stays (locateContext cursor e).2 := by
  unfold locateContext
  dsimp only
  split
  · exact ⟨rfl, rfl⟩
  · split
    · exact ⟨rfl, rfl⟩
    · exact ⟨rfl, rfl⟩

theorem locateEnd_stays (cursor : Cursor) (index : Nat) (segments : List String) (last : String)
    (e : Editing) : e.Stays (locateEnd cursor index segments last e).2 := by
  have hd := descend_stays index cursor e segments
  unfold locateEnd
  split
  · rename_i he
    rwa [he] at hd
  · rename_i arrived he
    rw [he] at hd
    have hs : e.Stays (arrived.enter (index + segments.length) last) := ⟨hd.contexts, hd.chained⟩
    dsimp only
    split
    · exact hs
    · exact hs

theorem contexts_start (path : FieldPath) (e : Editing) :
    (start path e).2.contexts = path.front e.contexts := by
  unfold start FieldPath.front
  split
  · rename_i hu
    have hd : path.contextDepth ≠ 0 := Nat.pos_iff_ne_zero.mp (FieldPath.usesContext_iff.mp hu)
    simp only [startAtContext, ContextStack.select?, ContextStack.get?, if_neg hd]
    cases hg : e.contexts.entries[path.contextDepth - 1]? with
    | none =>
      have hl : e.contexts.entries.length ≤ path.contextDepth := by
        have := List.getElem?_eq_none_iff.mp hg
        omega
      exact congrArg ContextStack.mk (List.take_of_length_le hl).symm
    | some context =>
      simp only [Option.map_some]
      split
      · rfl
      · simp
  · rw [startAtRoot]
    split
    · rfl
    · rfl

theorem chained_start {path : FieldPath} {e : Editing} {cursor : Cursor}
    (h : (start path e).1 = .ok cursor) :
    (start path e).2.chained = (path.usesContext || e.chained) := by
  unfold start at h ⊢
  split at h
  · rename_i hu
    rw [if_pos hu, hu, Bool.true_or]
    simp only [startAtContext] at h ⊢
    split at h
    · contradiction
    · split at h
      · contradiction
      · rename_i hn
        rw [if_neg hn]
        exact chained_traceLost _ _ _
  · rename_i hu
    rw [if_neg hu, Bool.eq_false_iff.mpr hu, Bool.false_or]
    rw [startAtRoot]
    split
    · rfl
    · rfl

/-- Following a path keeps the contexts up to the one that it starts at, and joins their chain. -/
theorem locate_front (path : FieldPath) (e : Editing) :
    (locate path e).2.contexts = path.front e.contexts ∧
      ∀ d, (locate path e).1 = .ok d →
        (locate path e).2.chained = (path.usesContext || e.chained) := by
  have hc := contexts_start path e
  have hj (cursor : Cursor) (h : (start path e).1 = .ok cursor) := chained_start h
  unfold locate
  generalize start path e = r at hc hj
  obtain ⟨(fault | cursor), started⟩ := r
  · exact ⟨hc, fun d hd => by cases hd⟩
  · have hj := hj cursor rfl
    have hs (e' : Editing) (h : (started.layOut path.segments).Stays e') :
        e'.contexts = path.front e.contexts ∧ e'.chained = (path.usesContext || e.chained) :=
      ⟨h.contexts.trans hc, h.chained.trans hj⟩
    dsimp only
    split
    · obtain ⟨h, h'⟩ := hs _ (locateContext_stays cursor _)
      exact ⟨h, fun _ _ => h'⟩
    · obtain ⟨h, h'⟩ := hs _ (locateEnd_stays cursor _ _ _ _)
      exact ⟨h, fun _ _ => h'⟩

end Editing

theorem Place.lastStep_of_ofStep? {container : Value RecordType} {step : Step}
    {kind : Kind RecordType} {place : Place} (h : Place.ofStep? container step kind = some place)
    (hs : (container.child? step).isSome = true) : place.lastStep = step ∧ place.kind = kind := by
  simp only [Place.ofStep?] at h
  split at h
  · cases h
    exact ⟨rfl, rfl⟩
  · rename_i items i
    cases h
    have hi : i < items.length := by simpa [Value.child?] using hs
    exact ⟨by rw [Place.lastStep, Place.position_of_lt hi], rfl⟩
  · cases h
    exact ⟨rfl, rfl⟩
  · contradiction

theorem Place.child?_of_field {kind declared : Kind RecordType} {target : Value RecordType}
    {segment name : String} (h : Place.ofSegment kind target segment = .ok (.field name declared)) :
    (target.child? (.field name)).isSome = true := by
  simp only [Place.ofSegment] at h
  split at h <;> try contradiction
  · split at h
    · cases h
    · split at h
      · cases h
      · contradiction
  · split at h
    · contradiction
    · cases h
  · split at h
    · rename_i hg
      cases h
      exact Option.isSome_iff_exists.mpr ⟨_, hg⟩
    · contradiction

/-- A slot that is there is a child of the value that its last step starts from. -/
theorem Value.isSome_child? {root container : Value RecordType} {l : Location} {step : Step}
    (hc : root.at? l = some container) (hs : (root.at? (l.child step)).isSome = true) :
    (container.child? step).isSome = true := by
  rw [Location.child, Value.at?_append, hc, Option.bind_some, Value.at?] at hs
  cases hg : container.child? step with
  | none => simp [hg] at hs
  | some child => rfl

/-- What the place says of its container holds of the value there: a list and a map are as the place
has them, and a record has the field. -/
theorem Destination.held_of {root target : Value RecordType} {d : Destination}
    (ht : root.at? d.container = some target)
    (hc : ∀ v, d.place.contents? = some v → target = v)
    (hf : ∀ name kind, d.place = .field name kind → (target.child? (.field name)).isSome = true) :
    d.Held root := by
  obtain ⟨container, place⟩ := d
  cases place with
  | element items index kind =>
    obtain rfl := hc _ rfl
    exact ht
  | entry entries key kind =>
    obtain rfl := hc _ rfl
    exact ht
  | field name kind =>
    obtain ⟨value, hv⟩ := Option.isSome_iff_exists.mp (hf name kind rfl)
    have hs : root.at? (container.child (.field name)) = some value := by
      rw [Location.child, Value.at?_append, ht]
      simp [Value.at?, hv]
    exact Option.isSome_iff_exists.mpr ⟨value, hs⟩

namespace Cursor

variable {root : Value RecordType} {cursor : Cursor} {d : Destination}

/-- The cursor's own place is its slot, which is there. -/
theorem slot_of_own (h : cursor.own root = .ok d)
    (hv : (root.at? cursor.location).isSome = true) :
    d.slot = cursor.location ∧ d.place.kind = cursor.kind ∧ d.Held root := by
  rw [own] at h
  split at h
  · contradiction
  · rename_i step hl
    obtain ⟨base, hb⟩ := List.getLast?_eq_some_iff.mp hl
    rw [hb, List.dropLast_concat] at h
    split at h
    · contradiction
    · rename_i place hp
      cases h
      obtain ⟨container, hc, hp⟩ := Option.bind_eq_some_iff.mp hp
      rw [hb] at hv
      have hs : (container.child? step).isSome = true := Value.isSome_child? hc hv
      obtain ⟨ht, hk⟩ := Place.lastStep_of_ofStep? hp hs
      refine ⟨by rw [Destination.slot, ht, hb, Location.child], hk, ?_⟩
      refine Destination.held_of hc (fun v hv => Place.contents?_ofStep? hp hv) ?_
      intro name kind hf
      have hn : step = .field name := ht.symm.trans (congrArg Place.lastStep hf)
      exact hn ▸ hs

theorem startsWith_of_walk {next : Cursor} {segments : List String}
    (h : cursor.walk root segments = .ok next) : next.location.startsWith cursor.location := by
  induction segments generalizing cursor with
  | nil =>
    cases h
    exact Location.startsWith_self _
  | cons segment rest ih =>
    rw [walk] at h
    split at h
    · contradiction
    · rename_i advanced ha
      rw [advance] at ha
      split at ha
      · contradiction
      · split at ha
        · contradiction
        · cases ha
          exact Location.startsWith_trans (ih h) (Location.startsWith_child _ _)

/-- The last segment leads to a slot inside that of the cursor, in a container that is there. -/
theorem slot_of_destination {segments : List String} {last : String}
    (h : cursor.destination root segments last = .ok d) :
    d.slot.isInside cursor.location ∧ d.Held root := by
  rw [destination] at h
  split at h
  · contradiction
  · rename_i container hw
    split at h
    · contradiction
    · rename_i place hp
      cases h
      rw [Cursor.place] at hp
      split at hp
      · contradiction
      · rename_i target ht
        constructor
        · have hi := Location.isInside_child container.location place.lastStep
          obtain ⟨hs, hn⟩ := Location.isInside_iff_startsWith.mp hi
          have hb := startsWith_of_walk hw
          refine Location.isInside_iff_startsWith.mpr
            ⟨Location.startsWith_trans hs hb, fun he => ?_⟩
          have hc : container.location.startsWith (container.location.child place.lastStep) := by
            rwa [show container.location.child place.lastStep = cursor.location from he]
          exact hn (Location.startsWith_antisymm hs hc)
        · refine Destination.held_of ht (fun v hv => Place.contents?_ofSegment hp hv) ?_
          rintro name kind rfl
          exact Place.child?_of_field hp

end Cursor

namespace FieldPath

variable {root : Value RecordType} {contexts : ContextStack} {path : FieldPath} {d : Destination}

theorem origin_of_context {cursor : Cursor} (hu : path.usesContext = true)
    (h : path.origin root contexts = .ok cursor) :
    ∃ c, contexts.get? path.contextDepth = some c ∧ cursor = ⟨c.location, c.kind⟩ ∧
      (root.at? c.location).isSome = true := by
  unfold origin at h
  rw [if_pos hu] at h
  split at h
  · contradiction
  · rename_i context hg
    split at h
    · contradiction
    · rename_i hn
      cases h
      have hv : (root.at? context.location).isNone ≠ true := fun hc => hn (by simp [hc])
      exact ⟨context, hg, rfl, by simpa [Option.isSome_iff_ne_none] using hv⟩

/-- A path that starts at a context leads to its slot, if it is only markers, and otherwise to a
slot inside it. -/
structure Joins (path : FieldPath) (c : Context) (d : Destination) : Prop where
  own : path.segments = [] → d.slot = c.location ∧ d.place.kind = c.kind
  inside : path.segments ≠ [] → d.slot.isInside c.location

theorem joins_of_destination (hu : path.usesContext = true)
    (h : path.destination root contexts = .ok d) :
    ∃ c, contexts.get? path.contextDepth = some c ∧ path.Joins c d := by
  rw [destination] at h
  split at h
  · contradiction
  · rename_i cursor ho
    obtain ⟨c, hg, rfl, hv⟩ := origin_of_context hu ho
    refine ⟨c, hg, ?_⟩
    split at h
    · rename_i hl
      have hn : path.segments = [] := List.getLast?_eq_none_iff.mp hl
      obtain ⟨hs, hk, -⟩ := Cursor.slot_of_own h hv
      exact ⟨fun _ => ⟨hs, hk⟩, fun hc => absurd hn hc⟩
    · rename_i last hl
      have hn : path.segments ≠ [] := fun hc => by simp [hc] at hl
      exact ⟨fun hc => absurd hc hn, fun _ => (Cursor.slot_of_destination h).1⟩

/-- Where a path leads, the container is there. -/
theorem held_of_destination (h : path.destination root contexts = .ok d) : d.Held root := by
  rw [destination] at h
  split at h
  · contradiction
  · rename_i cursor ho
    split at h
    · rename_i hl
      cases hu : path.usesContext with
      | true =>
        obtain ⟨c, hg, rfl, hv⟩ := origin_of_context hu ho
        exact (Cursor.slot_of_own h hv).2.2
      | false =>
        -- The root is no slot of a container.
        unfold origin at ho
        rw [if_neg (by simp [hu])] at ho
        split at ho
        · cases ho
          contradiction
        · contradiction
    · exact (Cursor.slot_of_destination h).2

end FieldPath

namespace Editing

variable {settings : Settings} {tags : TagTable} {contexts : ContextStack} {request : Request}
  {root : Value RecordType}

/-- The edit of a request comes to a destination: it goes on there with the config as it was, the
contexts up to the one that the path starts at, and what the request asks for. -/
structure Arrives (contexts : ContextStack) (request : Request)
    (root : Value RecordType) (path : FieldPath) (d : Destination) (e : Editing) : Prop where
  held : d.Held root
  root : e.root = root
  op : e.progress.op = (Operation.split request.value).1
  value : e.progress.value = (Operation.split request.value).2
  contexts : e.contexts = path.front contexts
  chained : e.chained = path.usesContext

theorem attempt_of_parse (settings : Settings) (tags : TagTable) (contexts : ContextStack)
    (root : Value RecordType) {path : FieldPath} (hp : FieldPath.parse request.path = .ok path) :
    attempt tags { settings, request, root, contexts } =
      follow tags path (prepare { settings, request, root, contexts }) := by
  simp only [attempt, hp]

/-- Where following the path of a request comes to. -/
theorem locate_arrives (settings : Settings) (request : Request) {path : FieldPath}
    {d : Destination} (hd : path.destination root contexts = .ok d) :
    let located := locate path (prepare { settings, request, root, contexts })
    located.1 = .ok d ∧ Arrives contexts request root path d located.2 := by
  intro located
  obtain ⟨hl, hf⟩ := locate_spec path (prepare { settings, request, root, contexts })
  obtain ⟨hc, hj⟩ := locate_front path (prepare { settings, request, root, contexts })
  have hl : located.1 = .ok d := hl.trans hd
  have hj : located.2.chained = path.usesContext := (hj d hl).trans (Bool.or_false _)
  exact ⟨hl, FieldPath.held_of_destination hd, hf.root, hf.op, hf.value, hc, hj⟩

theorem attempt_eq (settings : Settings) (tags : TagTable) {path : FieldPath} {d : Destination}
    (hp : FieldPath.parse request.path = .ok path)
    (hd : path.destination root contexts = .ok d) :
    attempt tags { settings, request, root, contexts } =
      editDestination tags d (locate path (prepare { settings, request, root, contexts })).2 := by
  obtain ⟨hl, -⟩ := locate_arrives settings request hd
  rw [attempt_of_parse settings tags contexts root hp, follow]
  generalize locate path _ = located at hl
  obtain ⟨first, arrived⟩ := located
  obtain rfl : first = .ok d := hl
  rfl

theorem attempt_of_destination (settings : Settings) (tags : TagTable) {path : FieldPath}
    {d : Destination} (hp : FieldPath.parse request.path = .ok path)
    (hd : path.destination root contexts = .ok d) :
    ∃ arrived, Arrives contexts request root path d arrived ∧
      attempt tags { settings, request, root, contexts } = editDestination tags d arrived :=
  ⟨_, (locate_arrives settings request hd).2, attempt_eq settings tags hp hd⟩

/-- A run ends as its attempt does, but for the report of a fault. -/
theorem run_ending (settings : Settings) (tags : TagTable) (contexts : ContextStack)
    (request : Request) (root : Value RecordType) :
    let done := run settings tags contexts request root
    let r := attempt tags { settings, request, root, contexts }
    done.1 = ending r ∧ done.2.root = r.2.root ∧ done.2.contexts = r.2.contexts := by
  intro done r
  simp only [done, r, run]
  generalize attempt tags { settings, request, root, contexts } = result
  obtain ⟨(fault | outcome), left⟩ := result
  · exact ⟨rfl, rfl, rfl⟩
  · exact ⟨rfl, rfl, rfl⟩

/-- The account of a whole edit, once its path leads somewhere. -/
theorem run_account {path : FieldPath} {d : Destination}
    (hp : FieldPath.parse request.path = .ok path)
    (hd : path.destination root contexts = .ok d) :
    let op := (Operation.split request.value).1
    let value := (Operation.split request.value).2
    let r := run settings tags contexts request root
    ∃ loss, d.Change op value root loss r.2.root ∧
      (d.site op value contexts path).Account loss r.1 r.2 := by
  intro op value r
  obtain ⟨arrived, hv, ha⟩ := attempt_of_destination settings tags hp hd
  have hh : d.Held arrived.root := hv.root ▸ hv.held
  obtain ⟨loss, hg, hs⟩ : Accounts d arrived (editDestination tags d arrived) :=
    editDestination_account hh
  rw [hv.root, hv.op, hv.value] at hg
  rw [hv.op, hv.value, hv.contexts, hv.chained] at hs
  refine ⟨loss, ?_⟩
  simp only [r, run, ha]
  generalize editDestination tags d arrived = x at hg hs
  obtain ⟨(fault | outcome), done⟩ := x
  · exact ⟨hg, hs.refuse⟩
  · exact ⟨hg, hs⟩

/-- An edit whose path leads nowhere faults and leaves the config as it was. -/
theorem run_astray {path : FieldPath} {fault : Fault}
    (hp : FieldPath.parse request.path = .ok path)
    (hd : path.destination root contexts = .error fault) :
    let r := run settings tags contexts request root
    r.1 = .faulted fault ∧ r.2.root = root ∧ r.2.contexts = path.front contexts := by
  intro r
  let e : Editing := ({ settings, request, root, contexts } : Editing).prepare
  obtain ⟨hl, hf⟩ := locate_spec path e
  obtain ⟨hc, -⟩ := locate_front path e
  have ha : attempt tags { settings, request, root, contexts } = follow tags path e :=
    attempt_of_parse settings tags contexts root hp
  simp only [r, run, ha, follow]
  generalize locate path e = l at hl hf hc
  obtain ⟨first, stopped⟩ := l
  obtain rfl : first = .error fault := hl.trans hd
  exact ⟨rfl, hf.root, hc⟩

theorem run_unread {fault : PathFault} (hp : FieldPath.parse request.path = .error fault) :
    let r := run settings tags contexts request root
    r.1 = .faulted (.path fault) ∧ r.2.root = root ∧ r.2.contexts = contexts := by
  intro r
  have ha : attempt tags { settings, request, root, contexts } =
      (.error (.path fault), ({ settings, request, root, contexts } : Editing).prepare) := by
    simp only [attempt, hp]
  simp only [r, run, ha]
  exact ⟨trivial, rfl, rfl⟩

end Editing

end FieldPatch
