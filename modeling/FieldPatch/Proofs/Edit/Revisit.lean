import FieldPatch.Proofs.Edit.Frame
import FieldPatch.Proofs.Edit.Origin
import FieldPatch.Proofs.Edit.Spelled

namespace FieldPatch

/-- What holds a slot inside another one is at that slot or inside it. -/
theorem Location.startsWith_of_child_isInside {base l : Location} {step : Step}
    (h : (base.child step).isInside l) : base.startsWith l := by
  obtain ⟨first, rest, he⟩ := (isInside_iff _ _).mp h
  have hb : base = l ++ (first :: rest).dropLast := by
    have hd := congrArg List.dropLast he
    rwa [child, List.dropLast_concat, List.dropLast_append_of_ne_nil (by simp)] at hd
  rw [hb]
  exact (startsWith_iff _ _).mpr ⟨_, rfl⟩

/-- The places have the same address in their containers, whose contents may differ. -/
inductive Place.Same : Place → Place → Prop
  | field (name : String) (kind : Kind RecordType) : Same (.field name kind) (.field name kind)
  | element {items items' : List (Value RecordType)} (index : Option Nat) (kind : Kind RecordType)
      (length : items'.length = items.length) :
      Same (.element items index kind) (.element items' index kind)
  | entry {entries entries' : List (Key × Value RecordType)} (key : Key) (kind : Kind RecordType) :
      Same (.entry entries key kind) (.entry entries' key kind)

namespace Place.Same

variable {place place' : Place}

theorem refl (place : Place) : place.Same place := by
  cases place with
  | field name kind => exact .field name kind
  | element items index kind => exact .element index kind rfl
  | entry entries key kind => exact .entry key kind

theorem kind (h : place.Same place') : place'.kind = place.kind := by
  cases h <;> rfl

theorem lastStep (h : place.Same place') : place'.lastStep = place.lastStep := by
  cases h with
  | field name kind => rfl
  | element index kind length => simp only [Place.lastStep, position, length]
  | entry key kind => rfl

theorem resizes (h : place.Same place') (op : Operation) :
    place'.resizes op = place.resizes op := by
  cases h <;> rfl

end Place.Same

theorem Destination.slot_of_same {d d' : Destination} (hc : d'.container = d.container)
    (h : d.place.Same d'.place) : d'.slot = d.slot := by
  rw [slot, slot, hc, h.lastStep]

namespace Value.SameForm

variable {before after : Value RecordType} {way : Location} {kind : Kind RecordType}
  {place : Place}

theorem isSome_get? {fields fields' : List (String × Value RecordType)}
    (h : Table.keys fields' = Table.keys fields) (name : String) :
    (Table.get? name fields').isSome = (Table.get? name fields).isSome := by
  rw [Bool.eq_iff_iff, Option.isSome_iff_ne_none, Option.isSome_iff_ne_none, ne_eq, ne_eq,
    Table.get?_eq_none_iff, Table.get?_eq_none_iff, h]

/-- A segment addresses in a container what it addresses in another one of the same form. -/
theorem ofSegment (h : before.SameForm way after) {segment : String}
    (hp : Place.ofSegment kind before segment = .ok place) :
    ∃ place', Place.ofSegment kind after segment = .ok place' ∧ place.Same place' := by
  cases h with
  | @record type fields fields' names =>
    have hs := isSome_get? names segment
    simp only [Place.ofSegment] at hp ⊢
    cases hk : type.field? segment with
    | none => simp [hk] at hp
    | some declared =>
      cases hg : Table.get? segment fields with
      | none => simp [hk, hg] at hp
      | some value =>
        rw [hg] at hs
        obtain ⟨value', hg'⟩ := Option.isSome_iff_exists.mp hs
        simp only [hk, hg, hg'] at hp ⊢
        cases hp
        exact ⟨_, rfl, .refl _⟩
  | @list items items' length =>
    cases kind <;> try contradiction
    simp only [Place.ofSegment] at hp ⊢
    split at hp
    · rename_i hg
      cases hp
      exact ⟨_, if_pos hg, .element none _ length⟩
    · rename_i hg
      rw [if_neg hg]
      cases hi : Integer.index? segment with
      | none => simp [hi] at hp
      | some i =>
        simp only [hi] at hp ⊢
        cases hp
        exact ⟨_, rfl, .element (some i) _ length⟩
  | @map entries entries' keys =>
    cases kind <;> try contradiction
    rename_i keyKind valueKind
    simp only [Place.ofSegment] at hp ⊢
    cases hk : keyKind.key segment with
    | error fault => simp [hk] at hp
    | ok key =>
      simp only [hk] at hp ⊢
      cases hp
      exact ⟨_, rfl, .entry key valueKind⟩

theorem ofStep? (h : before.SameForm way after) {step : Step}
    (hp : Place.ofStep? before step kind = some place) :
    ∃ place', Place.ofStep? after step kind = some place' ∧ place.Same place' := by
  cases h with
  | record type names =>
    cases step <;> try contradiction
    cases hp
    exact ⟨_, rfl, .refl _⟩
  | list length =>
    cases step <;> try contradiction
    cases hp
    exact ⟨_, rfl, .element _ kind length⟩
  | map keys =>
    cases step <;> try contradiction
    cases hp
    exact ⟨_, rfl, .entry _ kind⟩

end Value.SameForm

/-- A place that a path goes on from is there. -/
theorem Place.child?_of_step {kind : Kind RecordType} {target : Value RecordType}
    {segment : String} {place : Place} {step : Step}
    (hp : Place.ofSegment kind target segment = .ok place) (hs : place.step segment = .ok step) :
    (target.child? step).isSome = true := by
  cases place with
  | field name declared =>
    cases hs
    exact Place.child?_of_field hp
  | element items index kind =>
    obtain rfl := Place.contents?_ofSegment hp rfl
    cases index with
    | none => contradiction
    | some i =>
      simp only [Place.step] at hs
      split at hs
      · rename_i hi
        cases hs
        simpa [Value.child?] using hi
      · contradiction
  | entry entries key kind =>
    obtain rfl := Place.contents?_ofSegment hp rfl
    simp only [Place.step] at hs
    split at hs
    · rename_i hc
      cases hs
      exact hc
    · contradiction

theorem Place.Same.step {place place' : Place} {kind : Kind RecordType}
    {target : Value RecordType} {segment : String} {step : Step} (h : place.Same place')
    (hp : Place.ofSegment kind target segment = .ok place')
    (hc : (target.child? step).isSome = true) (hs : place.step segment = .ok step) :
    place'.step segment = .ok step := by
  cases h with
  | field name kind => exact hs
  | element index kind length =>
    cases index with
    | none => contradiction
    | some i => simpa only [Place.step, length] using hs
  | entry key kind =>
    obtain rfl := Place.contents?_ofSegment hp rfl
    simp only [Place.step] at hs ⊢
    split at hs
    · cases hs
      exact if_pos hc
    · contradiction

variable {root changed : Value RecordType} {scope : Location}

/-- A value outside the changed place is still there, or its container with the same form. -/
theorem Value.Framed.stays (h : root.Framed scope changed) {l : Location}
    {before : Value RecordType} (hn : ¬ l.startsWith scope) (hb : root.at? l = some before) :
    ∃ after, changed.at? l = some after ∧ (after = before ∨ ∃ way, before.SameForm way after) := by
  by_cases hs : scope.startsWith l
  · obtain ⟨way, rfl⟩ := (Location.startsWith_iff _ _).mp hs
    have hw : way ≠ [] := by
      rintro rfl
      rw [List.append_nil] at hn
      exact hn (Location.startsWith_self l)
    obtain ⟨old, after, ho, ha, hf⟩ := h.around l way rfl hw
    cases hb.symm.trans ho
    exact ⟨after, ha, .inr ⟨way, hf⟩⟩
  · exact ⟨before, (h.apart l hn hs).trans hb, .inl rfl⟩

theorem Value.Framed.isSome_at? (h : root.Framed scope changed) {l : Location}
    (hn : ¬ l.startsWith scope) (hs : (root.at? l).isSome = true) :
    (changed.at? l).isSome = true := by
  obtain ⟨before, hb⟩ := Option.isSome_iff_exists.mp hs
  obtain ⟨after, ha, -⟩ := h.stays hn hb
  rw [ha]
  rfl

namespace Cursor

variable {cursor next : Cursor} {d : Destination}

theorem place_same (h : root.Framed scope changed) (hn : ¬ cursor.location.startsWith scope)
    {segment : String} {place : Place} (hp : cursor.place root segment = .ok place) :
    ∃ place', cursor.place changed segment = .ok place' ∧ place.Same place' := by
  simp only [Cursor.place] at hp ⊢
  cases hb : root.at? cursor.location with
  | none => simp [hb] at hp
  | some before =>
    simp only [hb] at hp
    obtain ⟨after, ha, rfl | ⟨way, hf⟩⟩ := h.stays hn hb
    · exact ⟨place, by rw [ha]; exact hp, .refl place⟩
    · obtain ⟨place', hp', hs⟩ := hf.ofSegment hp
      exact ⟨place', by rw [ha]; exact hp', hs⟩

theorem ofSegment_of_place {segment : String} {place : Place}
    (h : cursor.place root segment = .ok place) :
    ∃ target, root.at? cursor.location = some target ∧
      Place.ofSegment cursor.kind target segment = .ok place := by
  rw [Cursor.place] at h
  split at h
  · contradiction
  · rename_i target ht
    exact ⟨target, ht, h⟩

theorem advance_same (h : root.Framed scope changed) {segment : String}
    (ha : cursor.advance root segment = .ok next) (hn : ¬ next.location.startsWith scope) :
    cursor.advance changed segment = .ok next := by
  rw [advance] at ha ⊢
  split at ha
  · contradiction
  · rename_i place hp
    split at ha
    · contradiction
    · rename_i step hs
      cases ha
      have hc : ¬ cursor.location.startsWith scope := fun hc =>
        hn (Location.startsWith_trans (Location.startsWith_child _ _) hc)
      obtain ⟨place', hp', hsame⟩ := place_same h hc hp
      obtain ⟨target, ht, ho⟩ := ofSegment_of_place hp
      obtain ⟨target', ht', ho'⟩ := ofSegment_of_place hp'
      -- The step leads to a slot outside the change, and so the slot is still there.
      have hold : (root.at? (cursor.location.child step)).isSome = true := by
        rw [Value.at?_child ht]
        exact Place.child?_of_step ho hs
      have hnew : (target'.child? step).isSome = true :=
        Value.isSome_child? ht' (h.isSome_at? hn hold)
      have hstep : place'.step segment = .ok step := hsame.step ho' hnew hs
      simp only [hp', hstep, hsame.kind]

theorem walk_same (h : root.Framed scope changed) {segments : List String}
    (hw : cursor.walk root segments = .ok next) (hn : ¬ next.location.startsWith scope) :
    cursor.walk changed segments = .ok next := by
  induction segments generalizing cursor with
  | nil => exact hw
  | cons segment rest ih =>
    rw [walk] at hw ⊢
    split at hw
    · contradiction
    · rename_i middle ha
      have hm : ¬ middle.location.startsWith scope := fun hc =>
        hn (Location.startsWith_trans (startsWith_of_walk hw) hc)
      rw [advance_same h ha hm]
      exact ih hw

theorem destination_same (h : root.Framed scope changed) {segments : List String} {last : String}
    (hd : cursor.destination root segments last = .ok d) (hn : ¬ d.container.startsWith scope) :
    ∃ place', cursor.destination changed segments last = .ok ⟨d.container, place'⟩ ∧
      d.place.Same place' := by
  rw [destination] at hd ⊢
  split at hd
  · contradiction
  · rename_i container hw
    split at hd
    · contradiction
    · rename_i place hp
      cases hd
      obtain ⟨place', hp', hs⟩ := place_same h hn hp
      refine ⟨place', ?_, hs⟩
      simp only [walk_same h hw hn, hp']

theorem own_same (h : root.Framed scope changed) (hd : cursor.own root = .ok d)
    (hn : ¬ d.container.startsWith scope) :
    ∃ place', cursor.own changed = .ok ⟨d.container, place'⟩ ∧ d.place.Same place' := by
  rw [own] at hd ⊢
  split at hd
  · contradiction
  · rename_i step hl
    split at hd
    · contradiction
    · rename_i place hp
      cases hd
      obtain ⟨before, hb, hp⟩ := Option.bind_eq_some_iff.mp hp
      obtain ⟨after, ha, rfl | ⟨way, hf⟩⟩ := h.stays hn hb
      · exact ⟨place, by simp only [ha, Option.bind_some, hp], .refl place⟩
      · obtain ⟨place', hp', hs⟩ := hf.ofStep? hp
        exact ⟨place', by simp only [ha, Option.bind_some, hp'], hs⟩

end Cursor

namespace FieldPath

variable {path : FieldPath} {contexts others : ContextStack} {d : Destination}

/-- A path starts at the same context as before, if the slot of that is still there. -/
theorem origin_again (hu : path.usesContext = true)
    (hc : others.get? path.contextDepth = contexts.get? path.contextDepth) {cursor : Cursor}
    (ho : path.origin root contexts = .ok cursor)
    (hv : (changed.at? cursor.location).isSome = true) :
    path.origin changed others = .ok cursor := by
  unfold origin at ho ⊢
  rw [if_pos hu] at ho ⊢
  rw [hc]
  split at ho
  · contradiction
  · rename_i context hg
    split at ho
    · contradiction
    · rename_i hn
      cases ho
      have hfull : context.location.isEmpty = false := by
        cases he : context.location.isEmpty with
        | true => simp [he] at hn
        | false => rfl
      have hthere : (changed.at? context.location).isNone = false := by
        cases hat : changed.at? context.location with
        | none => simp [hat] at hv
        | some value => rfl
      simp only [hfull, hthere]
      rfl

/-- The root keeps its type when something in it changes. -/
theorem origin_unmarked (h : root.Framed scope changed) (hn : scope ≠ [])
    (hu : path.usesContext = false) {cursor : Cursor}
    (ho : path.origin root contexts = .ok cursor) : path.origin changed others = .ok cursor := by
  have hm : ¬ path.usesContext = true := Bool.eq_false_iff.mp hu
  unfold origin at ho ⊢
  rw [if_neg hm] at ho ⊢
  obtain ⟨before, after, hb, ha, hf⟩ := h.around [] scope rfl hn
  cases Option.some.inj hb
  cases Option.some.inj ha
  cases hf with
  | record type names => exact ho
  | list length => contradiction
  | map keys => contradiction

/-- A path to a place outside of the change leads there again, when it starts at the same context.
If it is the path of the context itself, the slot must still be there. -/
theorem destination_again (h : root.Framed scope changed)
    (hd : path.destination root contexts = .ok d) (hn : ¬ d.container.startsWith scope)
    (hc : path.usesContext = true →
      others.get? path.contextDepth = contexts.get? path.contextDepth)
    (hs : path.segments = [] → (changed.at? d.slot).isSome = true) :
    ∃ place', path.destination changed others = .ok ⟨d.container, place'⟩ ∧
      d.place.Same place' := by
  have hscope : scope ≠ [] := by
    rintro rfl
    exact hn ((Location.startsWith_iff _ _).mpr ⟨d.container, rfl⟩)
  have horigin {cursor : Cursor} (ho : path.origin root contexts = .ok cursor) :
      path.origin changed others = .ok cursor := by
    cases hu : path.usesContext with
    | false => exact origin_unmarked h hscope hu ho
    | true =>
      obtain ⟨c, hg, rfl, hv⟩ := origin_of_context hu ho
      obtain ⟨c', hg', hj⟩ := joins_of_destination hu hd
      cases hg.symm.trans hg'
      refine origin_again hu (hc hu) ho ?_
      by_cases hl : path.segments = []
      · rw [← (hj.own hl).1]
        exact hs hl
      · -- The slot lies inside that of the context, so its container is not around that.
        have hb : d.container.startsWith c.location :=
          Location.startsWith_of_child_isInside (hj.inside hl)
        exact h.isSome_at? (fun hx => hn (Location.startsWith_trans hb hx)) hv
  rw [destination] at hd ⊢
  split at hd
  · contradiction
  · rename_i cursor ho
    rw [horigin ho]
    dsimp only
    split at hd
    · exact Cursor.own_same h hd hn
    · exact Cursor.destination_same h hd hn

/-- A path of markers only leads to a slot that is there. -/
theorem destination_of_bare (hs : path.segments = [])
    (h : path.destination root contexts = .ok d) :
    path.usesContext = true ∧ (root.at? d.slot).isSome = true := by
  rw [destination] at h
  split at h
  · contradiction
  · rename_i cursor ho
    have hl : path.segments.getLast? = none := by rw [hs]; rfl
    simp only [hl] at h
    cases hu : path.usesContext with
    | true =>
      obtain ⟨c, -, rfl, hv⟩ := origin_of_context hu ho
      refine ⟨rfl, ?_⟩
      rw [(Cursor.slot_of_own h hv).1]
      exact hv
    | false =>
      unfold origin at ho
      rw [if_neg (by simp [hu])] at ho
      split at ho
      · cases ho
        contradiction
      · contradiction

/-- Up to the context that it starts at, a path meets the same contexts as before. -/
theorem get?_front (hu : path.usesContext = true) :
    (path.front contexts).get? path.contextDepth = contexts.get? path.contextDepth := by
  have hd : path.contextDepth ≠ 0 := Nat.pos_iff_ne_zero.mp (usesContext_iff.mp hu)
  rw [front, if_pos hu, ContextStack.get?, ContextStack.get?, if_neg hd, if_neg hd]
  exact List.getElem?_take_of_lt (by omega)

/-- Which contexts there are besides the one that a path starts at does not matter. -/
theorem destination_of_same_context
    (hc : path.usesContext = true →
      others.get? path.contextDepth = contexts.get? path.contextDepth)
    (h : path.destination root contexts = .ok d) : path.destination root others = .ok d := by
  cases hu : path.usesContext with
  | false => rw [destination_of_unmarked hu contexts others, h]
  | true =>
    rw [destination] at h ⊢
    split at h
    · contradiction
    · rename_i cursor ho
      obtain ⟨c, -, rfl, hv⟩ := origin_of_context hu ho
      rw [origin_again hu (hc hu) ho hv]
      exact h

theorem lastSegment?_of_same_context
    (hc : path.usesContext = true →
      others.get? path.contextDepth = contexts.get? path.contextDepth) :
    path.lastSegment? others = path.lastSegment? contexts := by
  cases hu : path.usesContext with
  | false => exact lastSegment?_of_unmarked hu contexts others
  | true => rw [lastSegment?, lastSegment?, hc hu]

end FieldPath

end FieldPatch
