import FieldPatch.Proofs.Edit.Denoted
import FieldPatch.Proofs.Edit.Pointed

namespace FieldPatch

/-- Where an edit stands on its way, at the segment after those that it has followed. Between a
context and the first segment of its own it shows no location. -/
inductive FieldPath.Way (path : FieldPath) (root : Value RecordType) (start : Cursor)
    (p : Progress) : Prop
  | shown
      (spelled : ∀ op, start.Spells op root ((path.expanded start).take p.segmentIndex) p.location)
      (behind : path.usesContext = true → start.location.length < p.segmentIndex)
  | unshown (marked : path.usesContext = true) (location : p.location = [])
      (front : p.segmentIndex ≤ start.location.length)

theorem FieldPath.Way.of_same {path : FieldPath} {root : Value RecordType} {start : Cursor}
    {p q : Progress} (h : path.Way root start p) (hl : q.location = p.location)
    (hi : q.segmentIndex = p.segmentIndex) : path.Way root start q := by
  cases h with
  | shown spelled behind =>
    refine .shown ?_ ?_
    · rw [hl, hi]
      exact spelled
    · rw [hi]
      exact behind
  | unshown marked location front => exact .unshown marked (hl.trans location) (hi ▸ front)

namespace Editing

/-- From the first state to the second, the edit has followed as many of the segments, and come to
the cursor. -/
structure Behind (cursor : Cursor) (segments : List String) (count : Nat) (reached : Cursor)
    (e e' : Editing) : Prop where
  walked : cursor.walk e.root (segments.take count) = .ok reached
  still : count = 0 → e'.progress.location = e.progress.location
  shown : 0 < count → e'.progress.location = reached.location
  size : e'.progress.segmentCount = e.progress.segmentCount
  kind : e'.progress.targetKind = e.progress.targetKind
  sound : e'.progress.faulted = e.progress.faulted

theorem descend_behind (index : Nat) (cursor : Cursor) (e : Editing) (segments : List String) :
    let r := descend index cursor e segments
    ∃ count reached, Behind cursor segments count reached e r.2 ∧ count ≤ segments.length ∧
      (∀ next, r.1 = .ok next → count = segments.length) ∧
      ∀ fault, r.1 = .error fault → r.2.progress.segmentIndex = index + count := by
  induction segments generalizing index cursor e with
  | nil =>
    exact ⟨0, cursor, ⟨rfl, fun _ => rfl, fun h => absurd h (Nat.lt_irrefl 0), rfl, rfl, rfl⟩,
      Nat.le_refl 0, fun _ _ => rfl, fun _ h => by contradiction⟩
  | cons segment rest ih =>
    simp only [descend]
    split
    · exact ⟨0, cursor, ⟨rfl, fun _ => rfl, fun h => absurd h (Nat.lt_irrefl 0), rfl, rfl, rfl⟩,
        Nat.zero_le _, fun _ h => by contradiction, fun _ _ => rfl⟩
    · rename_i next ha
      obtain ⟨count, reached, hb, hc, hok, hf⟩ :=
        ih (index + 1) next ((e.enter index segment).reach next.location)
      have hw : cursor.walk e.root ((segment :: rest).take (count + 1)) = .ok reached := by
        rw [List.take_succ_cons, Cursor.walk]
        rw [root_enter] at ha
        rw [ha]
        exact hb.walked
      refine ⟨count + 1, reached, ⟨hw, fun h => by contradiction, fun _ => ?_, hb.size, hb.kind,
        hb.sound⟩, Nat.succ_le_succ hc, fun next h => ?_, fun fault h => ?_⟩
      · by_cases hz : count = 0
        · have hr := hb.walked
          rw [hz] at hr
          cases hr
          exact hb.still hz
        · exact hb.shown (Nat.pos_of_ne_zero hz)
      · rw [hok next h]
        rfl
      · rw [hf fault h]
        omega

theorem locateEnd_behind (cursor : Cursor) (index : Nat) {own : List String} {last : String}
    (hl : own.getLast? = some last) (e : Editing) :
    let r := locateEnd cursor index own.dropLast last e
    ∃ count reached, Behind cursor own count reached e r.2 ∧ count < own.length ∧
      r.2.progress.segmentIndex = index + count ∧ ∀ d, r.1 = .ok d → count + 1 = own.length := by
  obtain ⟨base, rfl⟩ := List.getLast?_eq_some_iff.mp hl
  rw [List.dropLast_concat]
  obtain ⟨count, reached, hb, hc, hok, hf⟩ := descend_behind index cursor e base
  have hn : (base ++ [last]).length = base.length + 1 := List.length_append
  have ht : (base ++ [last]).take count = base.take count := List.take_append_of_le_length hc
  have hw : cursor.walk e.root ((base ++ [last]).take count) = .ok reached := ht ▸ hb.walked
  rw [locateEnd]
  generalize descend index cursor e base = r at hb hok hf
  obtain ⟨(fault | next), arrived⟩ := r
  · exact ⟨count, reached, ⟨hw, hb.still, hb.shown, hb.size, hb.kind, hb.sound⟩, by omega,
      hf fault rfl, fun d h => by contradiction⟩
  · have hc := hok next rfl
    have hentered : Behind cursor (base ++ [last]) count reached e
        (arrived.enter (index + base.length) last) :=
      ⟨hw, hb.still, hb.shown, hb.size, hb.kind, hb.sound⟩
    dsimp only
    split
    · exact ⟨count, reached, hentered, by omega, by rw [hc]; rfl, fun d h => by omega⟩
    · exact ⟨count, reached, hentered, by omega, by rw [hc]; rfl, fun d h => by omega⟩

/-- The edit has not begun. -/
structure Blank (e : Editing) : Prop where
  expanded : e.expanded = []
  location : e.progress.location = []
  kind : e.progress.targetKind = none
  sound : e.progress.faulted = false

/-- The edit has counted the segments of its path, and followed none of them. -/
structure LaidOut (path : FieldPath) (root : Value RecordType) (start : Cursor) (e : Editing) :
    Prop where
  root : e.root = root
  size : e.progress.segmentCount = (path.expanded start).length
  location : e.progress.location = []
  kind : e.progress.targetKind = none
  sound : e.progress.faulted = false

/-- The edit stands at one of the segments of its path. -/
structure Underway (path : FieldPath) (root : Value RecordType) (start : Cursor) (e : Editing) :
    Prop where
  size : e.progress.segmentCount = (path.expanded start).length
  inside : e.progress.segmentIndex < e.progress.segmentCount
  kind : e.progress.targetKind = none
  sound : e.progress.faulted = false
  way : path.Way root start e.progress

variable {path : FieldPath} {e : Editing} {start : Cursor} {root : Value RecordType}
  {contexts : ContextStack}

theorem Blank.laidOut (h : e.Blank) (ho : (Editing.start path e).1 = .ok start) :
    LaidOut path e.root start ((Editing.start path e).2.layOut path.segments) := by
  have hs : (Editing.start path e).2.progress.location = e.progress.location ∧
      (Editing.start path e).2.progress.targetKind = e.progress.targetKind ∧
      (Editing.start path e).2.progress.faulted = e.progress.faulted := by
    rw [Editing.start]
    split
    · simp only [startAtContext]
      split
      · exact ⟨rfl, rfl, rfl⟩
      · split
        · exact ⟨rfl, rfl, rfl⟩
        · simp
    · rw [startAtRoot]
      split
      · exact ⟨rfl, rfl, rfl⟩
      · exact ⟨rfl, rfl, rfl⟩
  obtain ⟨hl, hk, hf⟩ := hs
  have hx : (Editing.start path e).2.expanded = _ := expanded_of_start h.expanded ho
  refine ⟨(start_spec path e).2.root, ?_, hl.trans h.location, hk.trans h.kind, hf.trans h.sound⟩
  rw [FieldPath.expanded, ← hx]
  rfl

/-- At its context itself an edit stands at the last segment, and shows no location yet. -/
theorem locateContext_underway (h : LaidOut path root start e) (hn : path.segments = [])
    (hu : path.usesContext = true) (hb : start.location ≠ []) :
    let r := locateContext start e
    Underway path root start r.2 ∧
      ∀ d, r.1 = .ok d → r.2.progress.segmentIndex + 1 = r.2.progress.segmentCount := by
  obtain ⟨base, step, he⟩ := (List.eq_nil_or_concat start.location).resolve_left hb
  have hlast : start.location.getLast? = some step := by
    rw [he, List.concat_eq_append, List.getLast?_concat]
  have hpos : 0 < start.location.length := List.length_pos_iff.mpr hb
  have hsize : e.progress.segmentCount = start.location.length := by
    rw [h.size, FieldPath.expanded, hn, List.append_nil, Location.segments, List.length_map]
  let entered := e.enter (e.progress.segmentCount - 1) step.text
  have hindex : entered.progress.segmentIndex + 1 = entered.progress.segmentCount := by
    change e.progress.segmentCount - 1 + 1 = e.progress.segmentCount
    omega
  have hcount : entered.progress.segmentCount = e.progress.segmentCount := rfl
  have hentered : Underway path root start entered :=
    ⟨h.size, by omega, h.kind, h.sound, .unshown hu h.location (by omega)⟩
  simp only [locateContext, hlast]
  split
  · exact ⟨hentered, fun d hd => by contradiction⟩
  · exact ⟨hentered, fun d hd => hindex⟩

/-- Behind segments of its own an edit shows the slot that they lead to. -/
theorem way_of_behind (ho : path.origin root contexts = .ok start) (h : LaidOut path root start e)
    {count : Nat} {reached : Cursor} {e' : Editing}
    (hb : Behind start path.segments count reached e e')
    (hi : e'.progress.segmentIndex = start.location.length + count) :
    path.Way root start e'.progress := by
  by_cases hz : count = 0
  · have hl : e'.progress.location = [] := (hb.still hz).trans h.location
    cases hu : path.usesContext with
    | true => exact .unshown hu hl (by omega)
    | false =>
      have hi : e'.progress.segmentIndex = 0 := by
        rw [hi, hz, FieldPath.location_of_unmarked hu ho]
        rfl
      refine .shown (fun op => ?_) fun hc => by simp [hu] at hc
      rw [hi, hl]
      exact .root
  · refine .shown (fun op => ?_) fun _ => by omega
    have hw := hb.walked
    rw [h.root] at hw
    have ht : (path.expanded start).take (start.location.length + count) =
        start.location.segments ++ path.segments.take count := by
      have hs : start.location.segments.length = start.location.length := List.length_map _
      rw [FieldPath.expanded, ← hs, List.take_length_add_append]
    rw [hi, ht, hb.shown (Nat.pos_of_ne_zero hz)]
    exact (FieldPath.spells_walk op ho hw).1

theorem locateEnd_underway (ho : path.origin root contexts = .ok start)
    (h : LaidOut path root start e) {last : String} (hl : path.segments.getLast? = some last) :
    let r := locateEnd start start.location.length path.segments.dropLast last e
    Underway path root start r.2 ∧
      ∀ d, r.1 = .ok d → r.2.progress.segmentIndex + 1 = r.2.progress.segmentCount := by
  intro r
  obtain ⟨count, reached, hb, hlt, hi, hok⟩ := locateEnd_behind start start.location.length hl e
  have hb : Behind start path.segments count reached e r.2 := hb
  have hi : r.2.progress.segmentIndex = start.location.length + count := hi
  have hsize : r.2.progress.segmentCount = (path.expanded start).length := hb.size.trans h.size
  have htotal : (path.expanded start).length = start.location.length + path.segments.length := by
    rw [FieldPath.expanded, List.length_append, Location.segments, List.length_map]
  refine ⟨⟨hsize, by omega, hb.kind.trans h.kind, hb.sound.trans h.sound,
    way_of_behind ho h hb hi⟩, fun d hd => ?_⟩
  have hc := hok d hd
  omega

/-- Wherever its path leads, an edit stands at a segment of it, and at the last one if it leads to a
place. -/
theorem locate_underway (h : e.Blank) (hp : path.Plain)
    (ho : path.origin e.root e.contexts = .ok start) :
    let r := locate path e
    Underway path e.root start r.2 ∧
      ∀ d, r.1 = .ok d → r.2.progress.segmentIndex + 1 = r.2.progress.segmentCount := by
  have hs : (Editing.start path e).1 = .ok start := (start_spec path e).1.trans ho
  have hx : (Editing.start path e).2.expanded = _ := expanded_of_start h.expanded hs
  have hl := h.laidOut hs
  rw [locate]
  generalize Editing.start path e = r at hs hx hl
  obtain ⟨first, started⟩ := r
  obtain rfl : first = .ok start := hs
  dsimp only
  split
  · rename_i hn
    have hn : path.segments = [] := List.getLast?_eq_none_iff.mp hn
    have hu := hp.starts hn
    exact locateContext_underway hl hn hu (FieldPath.below_of_origin hu ho)
  · rename_i last hlast
    have hlen : started.expanded.length = start.location.length := by
      rw [show started.expanded = start.location.segments from hx, Location.segments,
        List.length_map]
    rw [hlen]
    exact locateEnd_underway ho hl hlast

end Editing

end FieldPatch
