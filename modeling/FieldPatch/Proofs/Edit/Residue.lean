import FieldPatch.Proofs.Edit.Decision
import FieldPatch.Proofs.Edit.Destination
import FieldPatch.Proofs.Session.Turn

namespace FieldPatch

/-- The contents of the container that a place is in; a field does not know its record. -/
def Place.contents? : Place → Option (Value RecordType)
  | field _ _ => none
  | element items _ _ => some (.list items)
  | entry entries _ _ => some (.map entries)

/-- An insertion makes an entry here: at every position of a list and at a missing key of a map. -/
def Place.takesEntry : Place → Bool
  | field _ _ => false
  | element _ _ _ => true
  | entry entries key _ => !Table.contains key entries

theorem Place.contents?_ofSegment {kind : Kind RecordType} {target v : Value RecordType}
    {segment : String} {place : Place} (h : Place.ofSegment kind target segment = .ok place)
    (hv : place.contents? = some v) : target = v := by
  simp only [Place.ofSegment] at h
  split at h <;> try contradiction
  · split at h
    · cases h; cases hv; rfl
    · split at h
      · cases h; cases hv; rfl
      · contradiction
  · split at h
    · contradiction
    · cases h; cases hv; rfl
  · split at h
    · cases h; contradiction
    · contradiction

theorem Place.contents?_ofStep? {container v : Value RecordType} {step : Step}
    {kind : Kind RecordType} {place : Place} (h : Place.ofStep? container step kind = some place)
    (hv : place.contents? = some v) : container = v := by
  simp only [Place.ofStep?] at h
  split at h <;> cases h <;> cases hv <;> rfl

theorem Cursor.contents?_of_own {root v : Value RecordType} {cursor : Cursor} {d : Destination}
    (h : cursor.own root = .ok d) (hv : d.place.contents? = some v) :
    root.at? d.container = some v := by
  rw [Cursor.own] at h
  split at h
  · contradiction
  · split at h
    · contradiction
    · rename_i hp
      cases h
      obtain ⟨container, hc, hs⟩ := Option.bind_eq_some_iff.mp hp
      rw [hc, Place.contents?_ofStep? hs hv]

theorem Cursor.contents?_of_destination {root v : Value RecordType} {cursor : Cursor}
    {segments : List String} {last : String} {d : Destination}
    (h : cursor.destination root segments last = .ok d) (hv : d.place.contents? = some v) :
    root.at? d.container = some v := by
  rw [Cursor.destination] at h
  split at h
  · contradiction
  · split at h
    · contradiction
    · rename_i place hp
      cases h
      rw [Cursor.place] at hp
      split at hp
      · contradiction
      · rename_i target ht
        rw [ht, Place.contents?_ofSegment hp hv]

theorem FieldPath.contents?_of_destination {root v : Value RecordType} {contexts : ContextStack}
    {path : FieldPath} {d : Destination} (h : path.destination root contexts = .ok d)
    (hv : d.place.contents? = some v) : root.at? d.container = some v := by
  rw [FieldPath.destination] at h
  split at h
  · contradiction
  · split at h
    · exact Cursor.contents?_of_own h hv
    · exact Cursor.contents?_of_destination h hv

namespace Editing

def mutates (r : Result) : Bool :=
  match r.1 with
  | .ok outcome => outcome.mutated
  | .error _ => false

variable (tags : TagTable)

theorem root_perform (location : Location) (kind : Kind RecordType) (edit : SlotEdit) (e : Editing)
    (h : (perform location kind edit e).1.mutated = false) :
    (perform location kind edit e).2.root = e.root := by
  cases edit with
  | assign value opens detail => contradiction
  | amend value detail => contradiction
  | keep detail => rfl
  | mark => simp [perform]

theorem root_editSlot (location : Location) (kind : Kind RecordType) (e : Editing)
    (h : mutates (editSlot tags location kind e) = false) :
    (editSlot tags location kind e).2.root = e.root := by
  rw [editSlot] at h ⊢
  dsimp only at h ⊢
  split
  · rfl
  · rename_i hc
    simp only [hc] at h
    split
    · rfl
    · rename_i hd
      simp only [hd] at h
      exact root_perform location kind _ _ h

theorem root_fill {location : Location} {kind : Kind RecordType} {e : Editing}
    (h : mutates (fill tags location kind e) = false) :
    (fill tags location kind e).2.root = e.root := by
  rw [fill] at h ⊢
  dsimp only at h ⊢
  split
  · simp_all [mutates, Outcome.mutated]
  · rename_i hb
    rw [if_neg hb] at h
    exact root_editSlot tags location kind _ h

theorem fillOperation_eq (kind : Kind RecordType) (value : String) :
    fillOperation kind value = .overwrite ∨ fillOperation kind value = .reset := by
  unfold fillOperation
  split
  · exact .inl rfl
  · split
    · exact .inr rfl
    · exact .inl rfl

/-- The operations that fill a new entry assign a value or change the one that is there. -/
theorem decide_of_fillOperation {raw value segment : String} {kind target : Kind RecordType}
    {current : Value RecordType} {edit : SlotEdit}
    (h : SlotEdit.decide tags ⟨fillOperation target raw, value, segment⟩ kind current = .ok edit) :
    (∃ v opens detail, edit = .assign v opens detail) ∨ ∃ v detail, edit = .amend v detail := by
  have hd := SlotEdit.decide_decision tags ⟨fillOperation target raw, value, segment⟩ kind current
  rw [h] at hd
  have hn (op : Operation) (ho : fillOperation target raw = op) : op = .overwrite ∨ op = .reset :=
    ho ▸ fillOperation_eq target raw
  cases hd with
  | null detail asked reference => exact .inl ⟨_, _, _, rfl⟩
  | mark asked structural => simpa using hn _ asked
  | newSet detail asked sort held => exact .inr ⟨_, _, rfl⟩
  | keepMember detail asked sort held present => simpa using hn _ asked
  | addMember detail asked sort held absent => exact .inr ⟨_, _, rfl⟩
  | dropMember detail asked sort held present => exact .inr ⟨_, _, rfl⟩
  | missMember detail asked sort held absent => simpa using hn _ asked
  | decoded detail asked terminal made => exact .inl ⟨_, _, _, rfl⟩
  | filled detail asked structural made => exact .inl ⟨_, _, _, rfl⟩

theorem error_of_fill {location : Location} {kind : Kind RecordType} {e : Editing}
    (hb : Text.allBlank e.progress.value = false)
    (h : mutates (fill tags location kind e) = false) :
    ∃ fault, (fill tags location kind e).1 = .error fault := by
  unfold fill editSlot at h ⊢
  simp only [hb, Bool.false_eq_true, if_false] at h ⊢
  split
  · exact ⟨_, rfl⟩
  · rename_i hc
    simp only [hc] at h
    split
    · exact ⟨_, rfl⟩
    · rename_i edit hd
      simp only [hd] at h
      rcases decide_of_fillOperation tags hd with ⟨v, opens, detail, rfl⟩ | ⟨v, detail, rfl⟩
      · contradiction
      · contradiction

/-- A blank value is not filled in, so nothing goes wrong. -/
theorem mutates_fill_of_blank {location : Location} {kind : Kind RecordType} {e : Editing}
    (hb : Text.allBlank e.progress.value = true) : mutates (fill tags location kind e) = true := by
  simp [fill, hb, mutates, Outcome.mutated]

theorem newEntry_of_not_blank (kind : Kind RecordType) {value : String}
    (hb : Text.allBlank value = false) : ∃ entry, newEntry kind value = .ok entry := by
  rw [newEntry]
  cases kind.fresh? with
  | some fresh => exact ⟨fresh, rfl⟩
  | none => exact ⟨.null, by simp [hb]⟩

theorem root_insertElement {list : Location} {items : List (Value RecordType)} {index : Nat}
    {kind : Kind RecordType} {e : Editing} (hb : Text.allBlank e.progress.value = true)
    (h : mutates (insertElement tags list items index kind e) = false) :
    (insertElement tags list items index kind e).2.root = e.root := by
  rw [insertElement] at h ⊢
  split
  · rfl
  · rename_i entry hn
    simp only [hn] at h
    simp [mutates_fill_of_blank tags (e := e.makeElement list items index kind entry) hb] at h

theorem root_insertEntry {map : Location} {entries : List (Key × Value RecordType)} {key : Key}
    {kind : Kind RecordType} {e : Editing} (hb : Text.allBlank e.progress.value = true)
    (h : mutates (insertEntry tags map entries key kind e) = false) :
    (insertEntry tags map entries key kind e).2.root = e.root := by
  rw [insertEntry] at h ⊢
  split
  · rfl
  · rename_i entry hn
    simp only [hn] at h
    simp [mutates_fill_of_blank tags (e := e.makeEntry map entries key entry) hb] at h

/-- Without an entry to be made for a value, an edit that reports no change makes none. -/
theorem root_editDestination {d : Destination} {e : Editing}
    (hk : d.place.takesEntry = true → e.progress.op = .insert →
      Text.allBlank e.progress.value = true)
    (h : mutates (editDestination tags d e) = false) :
    (editDestination tags d e).2.root = e.root := by
  obtain ⟨container, place⟩ := d
  cases place with
  | field name kind => exact root_editSlot tags _ kind _ h
  | element items index kind =>
    simp only [editDestination, editElement] at h ⊢
    split at h
    · rename_i ho
      exact root_insertElement tags (hk rfl ho) h
    · rfl
    · contradiction
    · exact root_editSlot tags _ kind _ h
  | entry entries key kind =>
    simp only [editDestination, editEntry] at h ⊢
    split at h
    · rfl
    · rename_i ho hc
      exact root_insertEntry tags (hk (by simp [Place.takesEntry, hc]) ho) h
    · rfl
    · contradiction
    · exact root_editSlot tags _ kind _ h

theorem insertElement_leaves {list : Location} {items : List (Value RecordType)} {index : Nat}
    {kind : Kind RecordType} {e : Editing} (hl : e.root.at? list = some (.list items))
    (hi : index ≤ items.length) (hb : Text.allBlank e.progress.value = false)
    (h : mutates (insertElement tags list items index kind e) = false) :
    (∃ fault, (insertElement tags list items index kind e).1 = .error fault) ∧
      (insertElement tags list items index kind e).2.root ≠ e.root := by
  obtain ⟨entry, hn⟩ := newEntry_of_not_blank kind hb
  simp only [insertElement, hn] at h ⊢
  refine ⟨error_of_fill tags hb h, ?_⟩
  rw [root_fill tags h, root_makeElement]
  intro he
  have ha := at?_root_amend e list (.list (items.insertIdx index entry)) hl
  rw [he, hl] at ha
  injection ha with ha
  injection ha with ha
  have hc := congrArg List.length ha
  rw [List.length_insertIdx_of_le_length hi] at hc
  omega

theorem insertEntry_leaves {map : Location} {entries : List (Key × Value RecordType)} {key : Key}
    {kind : Kind RecordType} {e : Editing} (hm : e.root.at? map = some (.map entries))
    (hb : Text.allBlank e.progress.value = false)
    (h : mutates (insertEntry tags map entries key kind e) = false) :
    (∃ fault, (insertEntry tags map entries key kind e).1 = .error fault) ∧
      (insertEntry tags map entries key kind e).2.root ≠ e.root := by
  obtain ⟨entry, hn⟩ := newEntry_of_not_blank kind hb
  simp only [insertEntry, hn] at h ⊢
  refine ⟨error_of_fill tags hb h, ?_⟩
  rw [root_fill tags h, root_makeEntry]
  intro he
  have ha := at?_root_amend e map (.map (entries ++ [(key, entry)])) hm
  rw [he, hm] at ha
  injection ha with ha
  injection ha with ha
  have hc := congrArg List.length ha
  simp at hc

/-- An entry that was made for a value stays when the value cannot be filled in. -/
theorem editDestination_leaves {d : Destination} {e : Editing}
    (hd : ∀ v, d.place.contents? = some v → e.root.at? d.container = some v)
    (hk : d.place.takesEntry = true) (ho : e.progress.op = .insert)
    (hb : Text.allBlank e.progress.value = false)
    (h : mutates (editDestination tags d e) = false) :
    (∃ fault, (editDestination tags d e).1 = .error fault) ∧
      (editDestination tags d e).2.root ≠ e.root := by
  obtain ⟨container, place⟩ := d
  cases place with
  | field name kind => contradiction
  | element items index kind =>
    simp only [editDestination, editElement, ho] at h ⊢
    refine insertElement_leaves tags (hd _ rfl) ?_ hb h
    cases hf : index.filter (· < items.length) with
    | none => exact Nat.le_refl _
    | some i =>
      have hi := (Option.filter_eq_some_iff.mp hf).2
      exact Nat.le_of_lt (by simpa using hi)
  | entry entries key kind =>
    have hc : Table.contains key entries = false := by simpa [Place.takesEntry] using hk
    simp only [editDestination, editEntry, ho, hc] at h ⊢
    exact insertEntry_leaves tags (hd _ rfl) hb h

end Editing

/-- What the request asks for makes an entry for a value: an insertion of a value that is not blank,
at a place that takes entries. -/
structure Request.MakesEntry (request : Request) (contexts : ContextStack)
    (root : Value RecordType) : Prop where
  inserts : (Operation.split request.value).1 = .insert
  given : Text.allBlank (Operation.split request.value).2 = false
  takes : ∃ path d, FieldPath.parse request.path = .ok path ∧
    path.destination root contexts = .ok d ∧ d.place.takesEntry = true

namespace Editing

variable (tags : TagTable)

theorem root_follow {path : FieldPath} {e : Editing}
    (hk : ∀ d, path.destination e.root e.contexts = .ok d → d.place.takesEntry = true →
      e.progress.op = .insert → Text.allBlank e.progress.value = true)
    (h : mutates (follow tags path e) = false) : (follow tags path e).2.root = e.root := by
  obtain ⟨hl, hf⟩ := locate_spec path e
  rw [follow] at h ⊢
  generalize locate path e = r at hl hf h
  obtain ⟨(fault | d), arrived⟩ := r
  · exact hf.root
  · have hk' := hk d hl.symm
    rw [← hf.op, ← hf.value] at hk'
    exact (root_editDestination tags hk' h).trans hf.root

theorem follow_leaves {path : FieldPath} {e : Editing} {d : Destination}
    (hd : path.destination e.root e.contexts = .ok d) (hk : d.place.takesEntry = true)
    (ho : e.progress.op = .insert) (hb : Text.allBlank e.progress.value = false)
    (h : mutates (follow tags path e) = false) :
    (∃ fault, (follow tags path e).1 = .error fault) ∧ (follow tags path e).2.root ≠ e.root := by
  obtain ⟨hl, hf⟩ := locate_spec path e
  rw [hd] at hl
  rw [follow] at h ⊢
  generalize locate path e = r at hl hf h
  obtain ⟨first, arrived⟩ := r
  subst hl
  have hat (v : Value RecordType) (hv : d.place.contents? = some v) :
      arrived.root.at? d.container = some v := by
    rw [hf.root]
    exact FieldPath.contents?_of_destination hd hv
  rw [← hf.op] at ho
  rw [← hf.value] at hb
  rw [← hf.root]
  exact editDestination_leaves tags hat hk ho hb h

/-- An edit that reports no change makes none, or it made an entry and faults. -/
theorem attempt_residue (e : Editing) (h : mutates (attempt tags e) = false) :
    (e.request.MakesEntry e.contexts e.root →
      (∃ fault, (attempt tags e).1 = .error fault) ∧ (attempt tags e).2.root ≠ e.root) ∧
    (¬ e.request.MakesEntry e.contexts e.root → (attempt tags e).2.root = e.root) := by
  rw [attempt] at h ⊢
  cases hp : FieldPath.parse e.request.path with
  | error fault =>
    refine ⟨fun hm => ?_, fun _ => rfl⟩
    obtain ⟨path, d, hpath, _⟩ := hm.takes
    simp [hp] at hpath
  | ok path =>
    simp only [hp] at h ⊢
    constructor
    · intro hm
      obtain ⟨path', d, hpath, hd, hk⟩ := hm.takes
      cases hp.symm.trans hpath
      exact follow_leaves tags (e := e.prepare) hd hk hm.inserts hm.given h
    · intro hm
      refine root_follow tags (e := e.prepare) (fun d hd hk ho => ?_) h
      cases hb : Text.allBlank e.prepare.progress.value with
      | true => rfl
      | false => exact absurd ⟨ho, hb, path, d, hp, hd, hk⟩ hm

theorem run_residue (settings : Settings) (contexts : ContextStack) (request : Request)
    (root : Value RecordType)
    (h : (run settings tags contexts request root).1.mutated = false) :
    (request.MakesEntry contexts root → (run settings tags contexts request root).1.isFault = true ∧
      (run settings tags contexts request root).2.root ≠ root) ∧
    (¬ request.MakesEntry contexts root →
      (run settings tags contexts request root).2.root = root) := by
  have ha := attempt_residue tags { settings, request, root, contexts }
  rw [run] at h ⊢
  generalize attempt tags { settings, request, root, contexts } = r at h ha
  obtain ⟨(fault | outcome), done⟩ := r
  · obtain ⟨hm, hn⟩ := ha rfl
    exact ⟨fun hk => ⟨rfl, (hm hk).2⟩, hn⟩
  · obtain ⟨hm, hn⟩ := ha h
    refine ⟨fun hk => ?_, hn⟩
    obtain ⟨fault, hf⟩ := (hm hk).1
    cases hf

end Editing

/-- The edit makes an entry for a value and faults because it cannot fill it. -/
def Session.LeavesEntry (request : Request) (target : Object) (s : Session) : Prop :=
  request.MakesEntry (s.inFile (.ofEdit request target.id)).contexts target.value ∧
    (s.edit request target).outcome.isFault = true

/-- An edit that reports no change leaves the config as it was, in exactly those cases in which it
does not leave an entry that it could not fill. -/
theorem Session.root_edit_iff (request : Request) (target : Object) (s : Session) :
    ((s.edit request target).outcome.mutated = false →
      (s.edit request target).root = target.value) ↔ ¬ s.LeavesEntry request target := by
  rw [LeavesEntry]
  have hs := s.edit_handles request target
  generalize s.edit request target = t at hs
  cases hs with
  | skipped notes latched => simp [Outcome.isFault, Outcome.fault?]
  | ignored notes free void => simp [Outcome.isFault, Outcome.fault?]
  | ran notes free given =>
    have hr := Editing.run_residue s.tags s.settings (s.inFile (.ofEdit request target.id)).contexts
      request target.value
    rw [runEdit]
    constructor
    · rintro hk ⟨hm, hf⟩
      have hn : (Editing.run s.settings s.tags (s.inFile (.ofEdit request target.id)).contexts
          request target.value).1.mutated = false := by
        cases ho : (Editing.run s.settings s.tags (s.inFile (.ofEdit request target.id)).contexts
          request target.value).1 <;> simp_all [Outcome.isFault, Outcome.fault?, Outcome.mutated]
      exact ((hr hn).1 hm).2 (hk hn)
    · intro hk hn
      by_cases hm : request.MakesEntry (s.inFile (.ofEdit request target.id)).contexts target.value
      · exact absurd ⟨hm, ((hr hn).1 hm).1⟩ hk
      · exact (hr hn).2 hm

/-- A text that is no number, inserted into a list of numbers, is a fault and leaves a zero there,
so not every edit that reports no change makes none. -/
theorem Session.unread_number_stays :
    ¬ ∀ (request : Request) (target : Object) (s : Session),
      (s.edit request target).outcome.mutated = false →
        (s.edit request target).root = target.value := by
  intro h
  let request : Request :=
    { typeName := "Unit", fileKey := "unit", path := "numbers.*", value := "abc !+" }
  let target : Object := ⟨.loose 0, RecordType.numbered.fresh⟩
  let s := (Session.start {} []).1
  have hm : (s.edit request target).outcome.mutated = false := by decide +kernel
  have hr := congrArg (fun v => (v.at? [.field "numbers", .index 1]).isSome)
    (h request target s hm)
  have hn : ((s.edit request target).root.at? [.field "numbers", .index 1]).isSome = true := by
    decide +kernel
  have ho : (target.value.at? [.field "numbers", .index 1]).isSome = false := by decide +kernel
  simp only [hn, ho] at hr
  contradiction

end FieldPatch
