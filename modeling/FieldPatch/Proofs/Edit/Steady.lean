import FieldPatch.Proofs.Edit.Move

namespace FieldPatch

theorem Kind.checked_current {α : Type} {kind : Kind RecordType} {raw : String}
    {make : α → Value RecordType} {read : Except Misread α} {fault : Fault}
    (h : kind.checked raw make read = .error fault) : fault.isStale = false := by
  cases read <;> cases h
  rfl

theorem Kind.resetValue_current {kind : Kind RecordType} {fault : Fault}
    (h : kind.resetValue = .error fault) : fault.isStale = false := by
  cases kind with
  | enum type =>
    rw [resetValue] at h
    split at h
    · cases h
    · cases h
      rfl
  | _ =>
    cases h
    try rfl

theorem Kind.read_current {kind : Kind RecordType} {raw : String} {fault : Fault}
    (h : kind.read raw = .error fault) : fault.isStale = false := by
  cases kind with
  | int => exact checked_current h
  | float => exact checked_current h
  | vector dim => exact checked_current h
  | color => exact checked_current h
  | enum type =>
    rw [read] at h
    split at h
    · cases h
    · cases h
      rfl
  | _ =>
    cases h
    try rfl

theorem Kind.decode_current {kind : Kind RecordType} {op : Operation} {raw : String}
    {fault : Fault} (h : kind.decode op raw = .error fault) : fault.isStale = false := by
  rw [decode] at h
  split at h
  · exact resetValue_current h
  · exact read_current h

theorem Kind.defaultInstance_current {tags : TagTable} {value : String} {kind : Kind RecordType}
    {fault : Fault} (h : kind.defaultInstance tags value = .error fault) :
    fault.isStale = false := by
  rw [defaultInstance] at h
  split at h
  · split at h
    · cases h
      rfl
    · split at h <;> cases h
      rfl
  · split at h <;> cases h
    rfl

theorem SlotEdit.decide_current {tags : TagTable} {r : SlotRequest} {kind : Kind RecordType}
    {current : Value RecordType} {fault : Fault}
    (h : decide tags r kind current = .error fault) : fault.isStale = false := by
  have hd := decide_decision tags r kind current
  rw [h] at hd
  cases hd with
  | undecoded asked terminal made => exact Kind.decode_current made
  | unfilled asked structural made => exact Kind.defaultInstance_current made
  | _ => rfl

namespace Editing

/-- What an edit changes, apart from what it reports. -/
def scene (e : Editing) : Scene := ⟨e.root, e.contexts⟩

/-- The result comes about by moves; it is an outcome without fault, or a fault that blames no
context. -/
structure Steady (tags : TagTable) (s : Scene) (r : Result) : Prop where
  moves : Scene.Moves tags s r.2.scene
  current : Lands (fun outcome => outcome.isFault = false) r.1

variable {tags : TagTable} {e : Editing} {location list map : Location} {kind : Kind RecordType}

theorem Steady.of_moves {s t : Scene} {r : Result} (h : Steady tags t r)
    (hm : Scene.Moves tags s t) : Steady tags s r :=
  ⟨hm.trans h.moves, h.current⟩

theorem setContext_moves {value : Value RecordType} (h : e.root.Names location ⟨kind, value⟩) :
    Scene.Moves tags e.scene (e.setContext location kind).scene := by
  have hc : e.openChain.contexts.entries <+: e.contexts.entries := by
    rw [contexts_openChain]
    split
    · exact List.prefix_refl _
    · exact List.nil_prefix
  have hd : Scene.Move tags e.scene ⟨e.root, e.openChain.contexts⟩ := .drop hc
  simp only [scene] at hd ⊢
  rw [root_setContext]
  rcases contexts_setContext e location kind with ho | ho
  · rw [ho]
    exact hd.moves
  · rw [ho]
    exact hd.moves.trans (Scene.Move.remember _ h).moves

theorem perform_moves {r : SlotRequest} {current : Value RecordType} {edit : SlotEdit}
    (h : e.root.Names location ⟨kind, current⟩)
    (hd : SlotEdit.decide tags r kind current = .ok edit) :
    Scene.Moves tags e.scene (e.perform location kind edit).2.scene := by
  cases edit with
  | assign value opens detail =>
    obtain ⟨changed, hw⟩ := h.exists_replace value
    have hr := root_amend e location value hw
    have hm : Scene.Move tags e.scene ((e.assign location value).info detail).scene := by
      simp only [scene]
      simp only [root_info, root_assign, hr, contexts_info, contexts_assign]
      exact .assign h hd hw
    cases opens with
    | false => exact hm.moves
    | true =>
      have hn : ((e.assign location value).info detail).root.Names location ⟨kind, value⟩ := by
        simp only [root_info, root_assign, hr]
        exact h.replace hw
      exact hm.moves.trans (setContext_moves hn)
  | amend value detail =>
    obtain ⟨changed, hw⟩ := h.exists_replace value
    have hr := root_amend e location value hw
    unfold perform scene
    simp only [root_info, hr, contexts_info, contexts_amend]
    exact (Scene.Move.amend h hd hw).moves
  | keep detail => exact .refl _
  | mark => exact setContext_moves h

theorem isFault_perform (location : Location) (kind : Kind RecordType) (edit : SlotEdit)
    (e : Editing) : (e.perform location kind edit).1.isFault = false := by
  cases edit <;> rfl

theorem editSlot_steady {value : Value RecordType} (h : e.root.Names location ⟨kind, value⟩) :
    Steady tags e.scene (editSlot tags location kind e) := by
  rw [editSlot]
  simp only [root_aim, h.reaches.at?]
  split
  · rename_i hd
    exact ⟨.refl _, SlotEdit.decide_current hd⟩
  · rename_i hd
    exact ⟨perform_moves (e := e.aim location kind) h hd, isFault_perform _ _ _ _⟩

theorem fill_steady {value : Value RecordType} (h : e.root.Names location ⟨kind, value⟩) :
    Steady tags e.scene (fill tags location kind e) := by
  rw [fill]
  dsimp only
  split
  · refine ⟨?_, rfl⟩
    dsimp only
    split
    · exact setContext_moves (e := e.aim location kind) h
    · exact .refl _
  · exact editSlot_steady (e := { e with progress := { e.progress with
      op := fillOperation kind e.progress.value } }) h

theorem newEntry_current {raw : String} {fault : Fault} (h : newEntry kind raw = .error fault) :
    fault.isStale = false := by
  rw [newEntry] at h
  split at h
  · cases h
  · split at h <;> cases h
    rfl

theorem insertElement_steady {items : List (Value RecordType)} {index : Nat}
    (h : e.root.Reaches list ⟨.list kind, .list items⟩) (hp : list.Plain)
    (hi : index ≤ items.length) : Steady tags e.scene (insertElement tags list items index kind e) := by
  rw [insertElement]
  split
  · rename_i hn
    exact ⟨.refl _, newEntry_current hn⟩
  · rename_i entry hn
    obtain ⟨changed, hw⟩ := h.exists_replace (.list (items.insertIdx index entry))
    have hr := root_amend e list _ hw
    have hm : Scene.Move tags e.scene (e.makeElement list items index kind entry).scene := by
      simp only [scene]
      simp only [root_makeElement, hr, contexts_makeElement]
      exact .makeElement h hi hn hw
    have hs : Slot.Enters ⟨.list kind, .list (items.insertIdx index entry)⟩ (.index index)
        ⟨kind, entry⟩ := by
      refine .element ?_
      simp [List.getElem?_insertIdx, hi]
    have hf : (e.makeElement list items index kind entry).root.Names (list.child (.index index))
        ⟨kind, entry⟩ := by
      rw [root_makeElement, hr]
      exact ⟨(h.replace (h.ne_nil (by simp)) hw).child hs, by simp [Location.child],
        hp.child (Step.plain_index index)⟩
    exact (fill_steady hf).of_moves hm.moves

theorem editElement_steady {items : List (Value RecordType)} {index : Option Nat}
    (h : e.root.Reaches list ⟨.list kind, .list items⟩) (hp : list.Plain) :
    Steady tags e.scene (editElement tags list items index kind e) := by
  have hi (i : Nat) (hf : index.filter (· < items.length) = some i) : i < items.length := by
    simpa using (Option.filter_eq_some_iff.mp hf).2
  unfold editElement
  dsimp only
  split
  · refine insertElement_steady h hp ?_
    cases hf : index.filter (· < items.length) with
    | none => exact Nat.le_refl _
    | some i => exact Nat.le_of_lt (hi i hf)
  · exact ⟨.refl _, rfl⟩
  · rename_i i _ _
    obtain ⟨changed, hw⟩ := h.exists_replace (.list (items.eraseIdx i))
    refine ⟨?_, rfl⟩
    simp only [scene]
    simp only [root_dropElement, root_amend e list _ hw, contexts_dropElement]
    exact (Scene.Move.dropElement h hw).moves
  · rename_i i hf _ _
    have hv := List.getElem?_eq_getElem (hi i hf)
    exact editSlot_steady ⟨h.child (.element hv), by simp [Location.child],
      hp.child (Step.plain_index i)⟩

theorem insertEntry_steady {entries : List (Key × Value RecordType)} {key : Key}
    {keyKind : Kind RecordType} (h : e.root.Reaches map ⟨.map keyKind kind, .map entries⟩)
    (hp : map.Plain) (hk : key.isOf keyKind) (hs : Segment.Plain key.text)
    (ha : Table.contains key entries = false) :
    Steady tags e.scene (insertEntry tags map entries key kind e) := by
  rw [insertEntry]
  split
  · rename_i hn
    exact ⟨.refl _, newEntry_current hn⟩
  · rename_i entry hn
    obtain ⟨changed, hw⟩ := h.exists_replace (.map (entries ++ [(key, entry)]))
    have hr := root_amend e map _ hw
    have hm : Scene.Move tags e.scene (e.makeEntry map entries key entry).scene := by
      simp only [scene]
      simp only [root_makeEntry, hr, contexts_makeEntry]
      exact .makeEntry h hk hn hw
    have hg : Table.get? key (entries ++ [(key, entry)]) = some entry :=
      Table.get?_append_self (by simpa [Table.contains] using ha)
    have hf : (e.makeEntry map entries key entry).root.Names (map.child (.key key))
        ⟨kind, entry⟩ := by
      rw [root_makeEntry, hr]
      exact ⟨(h.replace (h.ne_nil (by simp)) hw).child (.entry hk hg), by simp [Location.child],
        hp.child hs⟩
    exact (fill_steady hf).of_moves hm.moves

theorem editEntry_steady {entries : List (Key × Value RecordType)} {key : Key}
    {keyKind : Kind RecordType} (h : e.root.Reaches map ⟨.map keyKind kind, .map entries⟩)
    (hp : map.Plain) (hk : key.isOf keyKind) (hs : Segment.Plain key.text) :
    Steady tags e.scene (editEntry tags map entries key kind e) := by
  rw [editEntry]
  split
  · exact ⟨.refl _, rfl⟩
  · rename_i ha
    exact insertEntry_steady h hp hk hs ha
  · exact ⟨.refl _, rfl⟩
  · obtain ⟨changed, hw⟩ := h.exists_replace (.map (Table.erase key entries))
    refine ⟨?_, rfl⟩
    simp only [scene]
    simp only [root_dropEntry, root_amend e map _ hw, contexts_dropEntry]
    exact (Scene.Move.dropEntry h hw).moves
  · rename_i hc _ _
    obtain ⟨value, hv⟩ := Option.isSome_iff_exists.mp hc
    exact editSlot_steady ⟨h.child (.entry hk hv), by simp [Location.child], hp.child hs⟩

theorem editDestination_steady {d : Destination} (h : d.Sound e.root) :
    Steady tags e.scene (editDestination tags d e) := by
  obtain ⟨⟨slot, hr, ho⟩, hp⟩ := h
  obtain ⟨container, place⟩ := d
  let arrived := { e with progress := { e.progress with atEnd := true } }
  cases ho with
  | field known held plain =>
    exact editSlot_steady (e := arrived) ⟨hr.child (.field known held), by simp [Location.child],
      hp.child plain⟩
  | element => exact editElement_steady (e := arrived) hr hp
  | entry sort plain => exact editEntry_steady (e := arrived) hr hp sort plain

theorem follow_steady {path : FieldPath} (h : e.contexts.Anchored e.root) (hp : path.Plain) :
    Steady tags e.scene (follow tags path e) := by
  obtain ⟨hl, hf⟩ := locate_spec path e
  have hd := FieldPath.destination_lands h hp
  rw [← hl] at hd
  rw [follow]
  generalize locate path e = r at hf hd
  have hm : Scene.Moves tags e.scene r.2.scene := by
    simp only [scene]
    rw [hf.root]
    exact (Scene.Move.drop hf.contexts).moves
  obtain ⟨(fault | d), arrived⟩ := r
  · exact ⟨hm, hd⟩
  · have hs : d.Sound arrived.root := by
      rw [hf.root]
      exact hd
    exact (editDestination_steady hs).of_moves hm

theorem attempt_steady (h : e.contexts.Anchored e.root) : Steady tags e.scene (attempt tags e) := by
  rw [attempt]
  split
  · exact ⟨.refl _, rfl⟩
  · rename_i path hp
    exact follow_steady (e := e.prepare) h (FieldPath.plain_of_parse hp)

variable (tags) in
/-- An edit is a chain of moves and never faults because of a context, when all are anchored. -/
theorem run_steady {settings : Settings} {contexts : ContextStack} (request : Request)
    {root : Value RecordType}
    (h : contexts.Anchored root) :
    Scene.Moves tags ⟨root, contexts⟩ (run settings tags contexts request root).2.scene ∧
      ∀ fault, (run settings tags contexts request root).1 = .faulted fault →
        fault.isStale = false := by
  let e : Editing := { settings, request, root, contexts }
  obtain ⟨hm, hc⟩ : Steady tags e.scene (attempt tags e) := attempt_steady h
  rw [run]
  generalize attempt tags e = r at hm hc
  obtain ⟨(fault | outcome), done⟩ := r
  · refine ⟨hm, fun f hf => ?_⟩
    cases hf
    exact hc
  · refine ⟨hm, fun f hf => ?_⟩
    cases hf
    contradiction

end Editing

end FieldPatch
