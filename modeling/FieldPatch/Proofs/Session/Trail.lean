import FieldPatch.Proofs.Edit.Typed
import FieldPatch.Proofs.Session.Steady

namespace FieldPatch

theorem Scene.Moves.keeps {tags : TagTable} {P : Value RecordType → Prop} {s t : Scene}
    (h : Moves tags s t) (hm : ∀ {s t : Scene}, Move tags s t → P s.root → P t.root)
    (hp : P s.root) : P t.root := by
  induction h with
  | refl => exact hp
  | tail _ move ih => exact hm move ih

namespace Session

/-- The turns of some requests on one config, each on what the one before it left. -/
def trail (s : Session) (target : Object) : List Request → List Turn
  | [] => []
  | request :: rest =>
    let t := s.edit request target
    t :: t.session.trail { target with value := t.root } rest

theorem edit_anchored (request : Request) {target : Object} {s : Session}
    (ha : s.contexts.Anchored target.value) :
    (s.edit request target).session.contexts.Anchored (s.edit request target).root :=
  (s.edit_steady request target fun _ => ha).moves.anchored (anchored_inFile fun _ => ha)

/-- What every move keeps holds of the config after every edit of a trail. -/
theorem forall_trail {tags : TagTable} {P : Value RecordType → Prop}
    (hm : ∀ {s t : Scene}, Scene.Move tags s t → P s.root → P t.root) {s : Session}
    {target : Object} {requests : List Request} (ht : s.tags = tags)
    (ha : s.contexts.Anchored target.value) (hp : P target.value) :
    ∀ t ∈ s.trail target requests, P t.root := by
  induction requests generalizing s target with
  | nil => intro t h; contradiction
  | cons request rest ih =>
    have hs := s.edit_steady request target fun _ => ha
    rw [ht] at hs
    have hn : P (s.edit request target).root := hs.moves.keeps hm hp
    intro t h
    rcases List.mem_cons.mp h with rfl | h
    · exact hn
    · exact ih hs.tags (edit_anchored request ha) hn t h

/-- A config that fits its schema is a record of its type and fits it after every edit. -/
theorem trail_fits (S : Schema) (settings : Settings) (tags : TagTable) (ht : S.Registers tags)
    (target : Object) (type : RecordType) (hr : ∃ fields, target.value = .record type fields)
    (hf : Fits S.types target.value (.record type)) (requests : List Request) :
    ∀ t ∈ (start settings tags).1.trail target requests,
      (∃ fields, t.root = .record type fields) ∧ Fits S.types t.root (.record type) := by
  intro t h
  have hm {a b : Scene} (move : Scene.Move tags a b) (ha : S.Holds type a.root) :
      S.Holds type b.root := move.holds ht ha
  obtain ⟨hrec, hfit⟩ := forall_trail hm rfl ContextStack.anchored_empty ⟨hr, hf⟩ t h
  exact ⟨hrec, hfit⟩

def numberedSchema : Schema where
  types type := type = .numbered
  closed := by
    rintro _ rfl name field h
    simp only [RecordType.field?, RecordType.numbered, RecordType.named, RecordType.declare,
      RecordType.fields, Table.put, Table.get?] at h
    split at h <;> cases h
    trivial
  initial_fits := by
    rintro _ rfl name field value h hi
    simp only [RecordType.field?, RecordType.numbered, RecordType.named, RecordType.declare,
      RecordType.fields, Table.put, Table.get?] at h
    split at h <;> cases h
    cases hi
    exact .list (by simpa using .int)

/-- A number inserted, a text that is none, and a null in the place of the list. -/
theorem numbered_trail_fits :
    let tags : TagTable := [("!unit", .numbered)]
    let target : Object := ⟨.loose 0, RecordType.numbered.fresh⟩
    let requests : List Request :=
      [{ path := "numbers.0", value := "8 !+" }, { path := "numbers.*", value := "abc !+" },
        { fileKey := "other", path := "numbers", value := "!n" }]
    let all := (start {} tags).1.trail target requests
    numberedSchema.Registers tags ∧ Fits numberedSchema.types target.value (.record .numbered) ∧
      all.map (fun t => t.outcome.mutated) = [true, false, true] ∧
      ∀ t ∈ all, Fits numberedSchema.types t.root (.record .numbered) := by
  intro tags target requests all
  have ht : numberedSchema.Registers tags := by
    intro tag type h
    simp only [tags, TagTable.lookup?, Table.get?] at h
    split at h <;> cases h
    rfl
  have hf : Fits numberedSchema.types target.value (.record .numbered) :=
    RecordType.fresh_fits rfl (by decide)
  have hm : all.map (fun t => t.outcome.mutated) = [true, false, true] := by decide +kernel
  refine ⟨ht, hf, hm, fun t h => ?_⟩
  exact (trail_fits numberedSchema {} tags ht target .numbered ⟨_, rfl⟩ hf requests t h).2

end Session

end FieldPatch
