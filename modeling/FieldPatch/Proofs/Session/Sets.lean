import FieldPatch.Proofs.Session.Commute
import FieldPatch.Proofs.Session.Spelled

namespace FieldPatch

/-- A member that an edit of a set asks for, or asks to be rid of. -/
inductive MemberEdit where
  | add (member : String)
  | drop (member : String)
deriving DecidableEq

/-- A crew with the names of its members. -/
def RecordType.crew : RecordType :=
  (named "Crew").declare "names" ⟨.stringSet, some (.stringSet (.ofList ["ann", "bo"]))⟩

/-- A fleet with a list of crews, one of them in it from the start. -/
def RecordType.fleet : RecordType :=
  (named "Fleet").declare "crews" ⟨.list (.record crew), some (.list [crew.fresh])⟩

namespace MemberEdit

/-- The members after an edit of them, in their order. -/
def on (members : List String) : MemberEdit → List String
  | add member => if member ∈ members then members else members ++ [member]
  | drop member => members.filter (· ≠ member)

/-- The members after some edits, made from first to last. -/
def onAll (members : List String) (edits : List MemberEdit) : List String := edits.foldl on members

/-- The edit finds the members as it wants them. -/
def Idle (members : List String) : MemberEdit → Prop
  | add member => member ∈ members
  | drop member => member ∉ members

variable {members : List String} {edit : MemberEdit}

theorem on_of_idle (h : edit.Idle members) : edit.on members = members := by
  cases edit with
  | add member => exact if_pos h
  | drop member =>
    have h : member ∉ members := h
    refine List.filter_eq_self.mpr fun m hm => ?_
    have hn : m ≠ member := fun he => h (he ▸ hm)
    simpa using hn

/-- An edit leaves the same members exactly if it finds them as it wants them. -/
theorem same_iff_idle : (∀ m, m ∈ edit.on members ↔ m ∈ members) ↔ edit.Idle members := by
  constructor
  · intro h
    cases edit with
    | add member =>
      refine (h member).mp ?_
      rw [on]
      split
      · assumption
      · simp
    | drop member =>
      intro hm
      have hf := (h member).mpr hm
      simp [on] at hf
  · intro h m
    rw [on_of_idle h]

theorem nodup_on (h : members.Nodup) (edit : MemberEdit) : (edit.on members).Nodup := by
  cases edit with
  | add member =>
    rw [on]
    split
    · exact h
    · rename_i hn
      refine List.nodup_append.mpr ⟨h, by simp, ?_⟩
      intro a ha b hb he
      rw [List.mem_singleton.mp hb] at he
      exact hn (he ▸ ha)
  | drop member => exact h.filter _

end MemberEdit

/-- What the request asks of a set. -/
def Request.memberEdit? (request : Request) : Option MemberEdit :=
  match Operation.split request.value with
  | (.insert, member) => some (.add member)
  | (.remove, member) => some (.drop member)
  | _ => none

theorem StringSet.members_insert (set : StringSet) (member : String) :
    (set.insert member).members = (MemberEdit.add member).on set.members := by
  rw [insert, MemberEdit.on]
  split
  · rfl
  · rfl

theorem StringSet.members_erase (set : StringSet) (member : String) :
    (set.erase member).members = (MemberEdit.drop member).on set.members := by
  have he : (set.erase member).members = set.members.erase member := rfl
  rw [he, set.nodup.erase_eq_filter, MemberEdit.on]
  exact List.filter_congr fun m _ => by simp [bne, Bool.beq_eq_decide_eq]

namespace SlotRequest

variable {tags : TagTable} {r : SlotRequest} {current : Value RecordType}

/-- A request that is refused leaves the slot as it is. -/
theorem effect_of_fault {kind : Kind RecordType}
    (h : (r.effect tags kind current).1.isFault = true) :
    (r.effect tags kind current).2 = current := by
  rw [effect] at h ⊢
  split at h
  · rfl
  · rename_i edit hd
    cases edit <;> contradiction

theorem effect_of_set (hn : r.op ≠ .setNull) (hc : r.op ≠ .setContext) :
    r.effect tags .stringSet current =
      match SlotEdit.ofSet r current with
      | .error fault => (.faulted fault, current)
      | .ok edit => (edit.outcome, edit.leaves current) := by
  have hd : SlotEdit.decide tags r .stringSet current = SlotEdit.ofSet r current :=
    SlotEdit.decide_of_set hn hc
  cases ho : SlotEdit.ofSet r current with
  | error fault => simp only [effect, hd, ho]
  | ok edit => simp only [effect, hd, ho]

/-- Members are added and dropped where there is a set only. -/
theorem effect_missing (ho : r.op = .insert ∨ r.op = .remove) :
    (r.effect tags .stringSet .null).1 = .faulted .setMissing := by
  rcases ho with ho | ho
  · rw [effect_of_set (by simp [ho]) (by simp [ho])]
    simp only [SlotEdit.ofSet, ho]
  · rw [effect_of_set (by simp [ho]) (by simp [ho])]
    simp only [SlotEdit.ofSet, ho]

theorem effect_created (ho : r.op = .reset) :
    r.effect tags .stringSet .null = (.applied, .stringSet .empty) := by
  rw [effect_of_set (by simp [ho]) (by simp [ho])]
  simp only [SlotEdit.ofSet, ho]
  rfl

theorem effect_present (ho : r.op = .reset) (hn : current ≠ .null) :
    (r.effect tags .stringSet current).1 = .faulted .setExists := by
  rw [effect_of_set (by simp [ho]) (by simp [ho])]
  cases current with
  | null => contradiction
  | _ => simp only [SlotEdit.ofSet, ho]

theorem effect_overwrite (ho : r.op = .overwrite) :
    (r.effect tags .stringSet current).1 =
      .faulted (.unsupportedOperation .overwrite .stringSet) := by
  rw [effect_of_set (by simp [ho]) (by simp [ho])]
  simp only [SlotEdit.ofSet, ho]

theorem effect_setContext (ho : r.op = .setContext) :
    (r.effect tags .stringSet current).1 = .faulted (.contextOnTerminal .stringSet) := by
  unfold effect
  simp only [SlotEdit.decide, ho]
  rfl

/-- What comes of an edit of the members of a set. -/
structure Edits (tags : TagTable) (r : SlotRequest) (set : StringSet) (edit : MemberEdit) :
    Prop where
  held : ∃ after : StringSet, (r.effect tags .stringSet (.stringSet set)).2 = .stringSet after ∧
    after.members = edit.on set.members
  idle : edit.Idle set.members → (r.effect tags .stringSet (.stringSet set)).1 = .noOp
  busy : ¬ edit.Idle set.members → (r.effect tags .stringSet (.stringSet set)).1 = .applied

theorem edits_add (set : StringSet) (ho : r.op = .insert) : r.Edits tags set (.add r.value) := by
  by_cases hm : r.value ∈ set.members
  · have hc : set.contains r.value = true := by simpa [StringSet.contains] using hm
    have he : r.effect tags .stringSet (.stringSet set) = (.noOp, .stringSet set) := by
      rw [effect_of_set (by simp [ho]) (by simp [ho])]
      simp only [SlotEdit.ofSet, ho, hc, if_true]
      rfl
    refine ⟨⟨set, by rw [he], ?_⟩, fun _ => by rw [he], fun hn => absurd hm hn⟩
    exact (MemberEdit.on_of_idle (show (MemberEdit.add r.value).Idle set.members from hm)).symm
  · have hc : set.contains r.value = false := by simpa [StringSet.contains] using hm
    have he : r.effect tags .stringSet (.stringSet set) =
        (.applied, .stringSet (set.insert r.value)) := by
      rw [effect_of_set (by simp [ho]) (by simp [ho])]
      simp only [SlotEdit.ofSet, ho, hc, Bool.false_eq_true, if_false]
      rfl
    exact ⟨⟨_, by rw [he], set.members_insert r.value⟩, fun hi => absurd hi hm,
      fun _ => by rw [he]⟩

theorem edits_drop (set : StringSet) (ho : r.op = .remove) : r.Edits tags set (.drop r.value) := by
  by_cases hm : r.value ∈ set.members
  · have hc : set.contains r.value = true := by simpa [StringSet.contains] using hm
    have he : r.effect tags .stringSet (.stringSet set) =
        (.applied, .stringSet (set.erase r.value)) := by
      rw [effect_of_set (by simp [ho]) (by simp [ho])]
      simp only [SlotEdit.ofSet, ho, hc, if_true]
      rfl
    exact ⟨⟨_, by rw [he], set.members_erase r.value⟩, fun hi => absurd hm hi,
      fun _ => by rw [he]⟩
  · have hc : set.contains r.value = false := by simpa [StringSet.contains] using hm
    have he : r.effect tags .stringSet (.stringSet set) = (.noOp, .stringSet set) := by
      rw [effect_of_set (by simp [ho]) (by simp [ho])]
      simp only [SlotEdit.ofSet, ho, hc, Bool.false_eq_true, if_false]
      rfl
    refine ⟨⟨set, by rw [he], ?_⟩, fun _ => by rw [he], fun hn => absurd hm hn⟩
    exact (MemberEdit.on_of_idle (show (MemberEdit.drop r.value).Idle set.members from hm)).symm

end SlotRequest

/-- The turn leaves these members in the field, none of them twice, and tells if they are others
than before. -/
structure Turn.SetsMembers (t : Turn) (l : Location) (before after : List String) : Prop where
  held : ∃ set : StringSet, t.root.at? l = some (.stringSet set) ∧ set.members = after
  distinct : after.Nodup
  same : (∀ m, m ∈ after ↔ m ∈ before) → t.outcome = .noOp
  changed : ¬ (∀ m, m ∈ after ↔ m ∈ before) → t.outcome = .applied

theorem Turn.SetsMembers.not_fault {t : Turn} {l : Location} {before after : List String}
    (h : t.SetsMembers l before after) : t.outcome.isFault = false := by
  by_cases hs : ∀ m, m ∈ after ↔ m ∈ before
  · rw [h.same hs]
    rfl
  · rw [h.changed hs]
    rfl

namespace Stage

/-- The edit comes to the field at the location, which is declared to hold a set of texts. -/
def ComesToSet (stage : Stage) (l : Location) : Prop :=
  ∃ container name, stage.destination? = some ⟨container, .field name .stringSet⟩ ∧
    l = container.child (.field name)

/-- How an edit of a field for a set ends, when the value was in the field before. -/
structure EditsSet (stage : Stage) (l : Location) (current : Value RecordType) : Prop where
  members : ∀ set edit, current = .stringSet set → stage.request.memberEdit? = some edit →
    stage.turn.SetsMembers l set.members (edit.on set.members)
  missing : current = .null → stage.op = .insert ∨ stage.op = .remove →
    stage.turn.outcome = .faulted .setMissing
  created : current = .null → stage.op = .reset →
    stage.turn.outcome = .applied ∧ stage.turn.root.at? l = some (.stringSet .empty)
  present : current ≠ .null → stage.op = .reset → stage.turn.outcome = .faulted .setExists
  overwrite : stage.op = .overwrite →
    stage.turn.outcome = .faulted (.unsupportedOperation .overwrite .stringSet)
  setContext : stage.op = .setContext →
    stage.turn.outcome = .faulted (.contextOnTerminal .stringSet)
  kept : stage.turn.outcome.isFault = true → stage.turn.root = stage.target.value

/-- An edit of a set is a request of the value that is in the field. -/
structure AsksSet (stage : Stage) (l : Location) (current : Value RecordType) (r : SlotRequest) :
    Prop where
  op : r.op = stage.op
  value : r.value = stage.input
  held : stage.target.value.at? l = some current
  outcome : stage.turn.outcome = (r.effect stage.session.tags .stringSet current).1
  written : stage.target.value.replace? l (r.effect stage.session.tags .stringSet current).2 =
    some stage.turn.root

variable {stage : Stage} {l : Location} {current : Value RecordType} {r : SlotRequest}

theorem ComesToSet.asks (h : stage.ComesToSet l) : ∃ current r, stage.AsksSet l current r := by
  obtain ⟨container, name, hd, rfl⟩ := h
  obtain ⟨path, hp, hd⟩ := Option.bind_eq_some_iff.mp hd
  have hd : path.destination stage.target.value stage.contexts =
      .ok ⟨container, .field name .stringSet⟩ := by
    generalize path.destination stage.target.value stage.contexts = found at hd
    cases found with
    | error fault => contradiction
    | ok d => rw [Option.some.inj hd]
  obtain ⟨arrived, hc⟩ := comes hp hd
  obtain ⟨current, hs⟩ := Option.isSome_iff_exists.mp (FieldPath.held_of_destination hd)
  obtain ⟨ho, hw⟩ := hc.affects rfl hs
  exact ⟨current, arrived.asks, hc.arrives.op, hc.arrives.value, hs, ho, hw⟩

theorem AsksSet.setsMembers {set : StringSet} {edit : MemberEdit}
    (h : stage.AsksSet l (.stringSet set) r) (he : r.Edits stage.session.tags set edit) :
    stage.turn.SetsMembers l set.members (edit.on set.members) := by
  obtain ⟨after, hv, hm⟩ := he.held
  have hw := h.written
  rw [hv] at hw
  constructor
  case held => exact ⟨after, Value.at?_of_replace? hw, hm⟩
  case distinct => exact MemberEdit.nodup_on set.nodup edit
  case same =>
    intro hs
    rw [h.outcome]
    exact he.idle (MemberEdit.same_iff_idle.mp hs)
  case changed =>
    intro hn
    rw [h.outcome]
    exact he.busy fun hi => hn (MemberEdit.same_iff_idle.mpr hi)

theorem AsksSet.editsSet (h : stage.AsksSet l current r) : stage.EditsSet l current := by
  have ho (op : Operation) (hop : stage.op = op) : r.op = op := h.op.trans hop
  constructor
  case members =>
    rintro set edit rfl hm
    rw [Request.memberEdit?] at hm
    split at hm
    · rename_i member hs
      cases hm
      have hi : stage.op = .insert := by rw [Stage.op, hs]
      have hv : r.value = member := by rw [h.value, Stage.input, hs]
      exact h.setsMembers (hv ▸ SlotRequest.edits_add set (ho _ hi))
    · rename_i member hs
      cases hm
      have hr : stage.op = .remove := by rw [Stage.op, hs]
      have hv : r.value = member := by rw [h.value, Stage.input, hs]
      exact h.setsMembers (hv ▸ SlotRequest.edits_drop set (ho _ hr))
    · contradiction
  case missing =>
    rintro rfl hop
    rw [h.outcome]
    exact SlotRequest.effect_missing (hop.imp (ho _) (ho _))
  case created =>
    rintro rfl hop
    have he : r.effect stage.session.tags .stringSet .null = _ :=
      SlotRequest.effect_created (ho _ hop)
    have hw := h.written
    rw [he] at hw
    exact ⟨by rw [h.outcome, he], Value.at?_of_replace? hw⟩
  case present =>
    intro hn hop
    rw [h.outcome]
    exact SlotRequest.effect_present (ho _ hop) hn
  case overwrite =>
    intro hop
    rw [h.outcome]
    exact SlotRequest.effect_overwrite (ho _ hop)
  case setContext =>
    intro hop
    rw [h.outcome]
    exact SlotRequest.effect_setContext (ho _ hop)
  case kept =>
    intro hf
    have hw := h.written
    rw [SlotRequest.effect_of_fault (h.outcome ▸ hf), Value.replace?_self h.held] at hw
    exact (Option.some.inj hw).symm

/-- Before each edit there is some value in the field, and the edit ends as that lets it. -/
theorem ComesToSet.editsSet (h : stage.ComesToSet l) :
    ∃ current, stage.target.value.at? l = some current ∧ stage.EditsSet l current := by
  obtain ⟨current, r, ha⟩ := h.asks
  exact ⟨current, ha.held, ha.editsSet⟩

end Stage

/-- The request is for a member of the field, which it names by a path from the root. -/
structure Request.AsksMember (request : Request) (root : Value RecordType) (container : Location)
    (name : String) : Prop where
  given : Session.isVoid request = false
  edits : request.memberEdit?.isSome = true
  leads : ∃ path, FieldPath.parse request.path = .ok path ∧ path.usesContext = false ∧
    ∀ contexts, path.destination root contexts = .ok ⟨container, .field name .stringSet⟩

/-- A path from the root leads to the field again after the field has changed. -/
theorem Request.AsksMember.again {request : Request} {root changed : Value RecordType}
    {container : Location} {name : String} (h : request.AsksMember root container name)
    (hf : root.Framed (container.child (.field name)) changed) :
    request.AsksMember changed container name := by
  obtain ⟨path, hp, hu, hd⟩ := h.leads
  refine ⟨h.given, h.edits, path, hp, hu, fun contexts => ?_⟩
  have hm (hc : path.usesContext = true) : False := by
    rw [hu] at hc
    contradiction
  have hout : ¬ container.startsWith (container.child (.field name)) :=
    Location.not_startsWith_child _ _
  have hagain : ∃ place, path.destination changed contexts = .ok ⟨container, place⟩ ∧
      Place.Same (.field name .stringSet) place :=
    FieldPath.destination_again hf (hd contexts) hout (fun hc => (hm hc).elim)
      fun hs => (hm (FieldPath.destination_of_bare hs (hd contexts)).1).elim
  obtain ⟨place, ha, hs⟩ := hagain
  cases hs
  exact ha

namespace Session

variable {s : Session} {target : Object} {l : Location} {requests : List Request}

/-- Requests for members of a field come to it one after the other, when no fault came before. -/
theorem stages_comeToSet {container : Location} {name : String} {set : StringSet}
    (hfree : ∀ file, ¬ s.Latched file)
    (hv : target.value.at? (container.child (.field name)) = some (.stringSet set))
    (hr : ∀ request ∈ requests, request.AsksMember target.value container name) :
    ∀ stage ∈ s.stages target requests, stage.ComesToSet (container.child (.field name)) := by
  induction requests generalizing s target set with
  | nil => exact fun stage h => absurd h List.not_mem_nil
  | cons request rest ih =>
    let stage : Stage := ⟨s, target, request⟩
    have ha := hr request List.mem_cons_self
    obtain ⟨path, hp, hu, hd⟩ := ha.leads
    have hdest : stage.destination? = some ⟨container, .field name .stringSet⟩ := by
      have hread : stage.path? = some path := by
        rw [Stage.path?_of_attempted ⟨hfree _, ha.given⟩, hp]
        rfl
      rw [Stage.destination?_of_read hread, hd]
      rfl
    have hcomes : stage.ComesToSet (container.child (.field name)) := ⟨_, _, hdest, rfl⟩
    refine List.forall_mem_cons.mpr ⟨hcomes, ?_⟩
    obtain ⟨edit, he⟩ := Option.isSome_iff_exists.mp ha.edits
    obtain ⟨current, hc, hends⟩ := hcomes.editsSet
    cases hv.symm.trans hc
    have hm := hends.members set edit rfl he
    obtain ⟨after, hheld, -⟩ := hm.held
    have hf : stage.target.value.Framed (container.child (.field name)) stage.turn.root :=
      Stage.framed_of_destination hdest
    exact ih (Stage.free_next (hfree _) hm.not_fault) hheld
      fun other ho => (hr other (List.mem_cons_of_mem _ ho)).again hf

/-- However many members are added and dropped one after the other, after each edit the field holds
what the edits so far make of the members. -/
theorem members_follow {set : StringSet} {edits : List MemberEdit}
    (hs : ∀ stage ∈ s.stages target requests, stage.ComesToSet l)
    (hv : target.value.at? l = some (.stringSet set))
    (he : requests.map Request.memberEdit? = edits.map some) (k : Nat) (t : Turn)
    (ht : (s.trail target requests)[k]? = some t) :
    t.SetsMembers l (MemberEdit.onAll set.members (edits.take k))
      (MemberEdit.onAll set.members (edits.take (k + 1))) := by
  induction requests generalizing s target set edits k with
  | nil =>
    rw [trail, List.getElem?_nil] at ht
    contradiction
  | cons request rest ih =>
    cases edits with
    | nil => contradiction
    | cons edit edits =>
      rw [List.map_cons, List.map_cons, List.cons.injEq] at he
      obtain ⟨hf, hr⟩ := he
      let stage : Stage := ⟨s, target, request⟩
      obtain ⟨current, hc, hd⟩ := (hs stage List.mem_cons_self).editsSet
      cases hv.symm.trans hc
      have hm : stage.turn.SetsMembers l set.members (edit.on set.members) :=
        hd.members set edit rfl hf
      cases k with
      | zero =>
        cases ht
        exact hm
      | succ k =>
        obtain ⟨after, ha, hn⟩ := hm.held
        have hi := ih (fun stage h => hs stage (List.mem_cons_of_mem _ h)) ha hr k ht
        rw [hn] at hi
        exact hi

/-- Edits in a row of a field for a set of texts. Each ends as the value in the field lets it; and
when the field holds a set and all edits are of members, then after each edit the members are what
the edits so far make of those at the start, with every change told from no change. -/
theorem members_keep_order (s : Session) (target : Object) (l : Location)
    (requests : List Request) (hs : ∀ stage ∈ s.stages target requests, stage.ComesToSet l) :
    (∀ stage ∈ s.stages target requests, ∃ current,
      stage.target.value.at? l = some current ∧ stage.EditsSet l current) ∧
    ∀ (set : StringSet) (edits : List MemberEdit), target.value.at? l = some (.stringSet set) →
      requests.map Request.memberEdit? = edits.map some →
        ∀ (k : Nat) (t : Turn), (s.trail target requests)[k]? = some t →
          t.SetsMembers l (MemberEdit.onAll set.members (edits.take k))
            (MemberEdit.onAll set.members (edits.take (k + 1))) :=
  ⟨fun stage h => (hs stage h).editsSet, fun _ _ hv he k t ht => members_follow hs hv he k t ht⟩

/-- A name that leaves a crew and comes back stands at the end, where it stays when it is added
again. -/
theorem crew_keeps_order :
    let s := (start {} []).1
    let target : Object := ⟨.loose 0, RecordType.fleet.fresh⟩
    let l : Location := [.field "crews", .index 0, .field "names"]
    let requests : List Request :=
      ["ann !-", "ann !+", "ann!+"].map fun value => { path := "crews.0.names", value }
    (∀ stage ∈ s.stages target requests, stage.ComesToSet l) ∧
      target.value.at? l = some (.stringSet (.ofList ["ann", "bo"])) ∧
      requests.map Request.memberEdit? =
        [MemberEdit.drop "ann", .add "ann", .add "ann"].map some ∧
      ∃ t, (s.trail target requests)[2]? = some t ∧
        t.SetsMembers l ["bo", "ann"] ["bo", "ann"] := by
  intro s target l requests
  have hr : ∀ request ∈ requests, request.AsksMember target.value
      [.field "crews", .index 0] "names" := by
    have hl (value : String) (hv : value ∈ ["ann !-", "ann !+", "ann!+"]) :
        Request.AsksMember { path := "crews.0.names", value } target.value
          [.field "crews", .index 0] "names" := by
      have hd : ∀ v ∈ ["ann !-", "ann !+", "ann!+"],
          Session.isVoid { path := "crews.0.names", value := v } = false ∧
            (Request.memberEdit? { path := "crews.0.names", value := v }).isSome = true := by
        decide +kernel
      have hp : FieldPath.parse "crews.0.names" = .ok ⟨0, ["crews", "0", "names"]⟩ := by rfl
      obtain ⟨hg, he⟩ := hd value hv
      exact ⟨hg, he, _, hp, rfl, fun _ => rfl⟩
    intro request hm
    obtain ⟨value, hv, rfl⟩ := List.mem_map.mp hm
    exact hl value hv
  have hv : target.value.at? l = some (.stringSet (.ofList ["ann", "bo"])) := rfl
  have hs : ∀ stage ∈ s.stages target requests, stage.ComesToSet l :=
    stages_comeToSet (not_latched_start {} []) hv hr
  have he : requests.map Request.memberEdit? =
      [MemberEdit.drop "ann", .add "ann", .add "ann"].map some := by decide +kernel
  exact ⟨hs, hv, he, _, rfl, (members_keep_order s target l requests hs).2 _ _ hv he 2 _ rfl⟩

end Session

end FieldPatch
