import FieldPatch.Proofs.Edit.Address
import FieldPatch.Proofs.Edit.Layers
import FieldPatch.Proofs.Edit.Revisit

namespace FieldPatch

theorem Location.Plain.moveIndex {l : Location} (h : l.Plain) (list : Location)
    (move : Nat → Nat) : (list.moveIndex move l).Plain := by
  rcases moveIndex_cases list move l with ⟨i, rest, rfl, he⟩ | ⟨-, he⟩
  · rw [he]
    obtain ⟨hlist, hrest⟩ := plain_append.mp h
    exact plain_append.mpr ⟨hlist, plain_cons.mpr ⟨Step.plain_index _, (plain_cons.mp hrest).2⟩⟩
  · rwa [he]

namespace ContextStack

/-- A path can name the location of every context. -/
def Plain (stack : ContextStack) : Prop := ∀ c ∈ stack.entries, c.location.Plain

variable {stack : ContextStack}

theorem plain_empty : empty.Plain := by
  intro c hc
  contradiction

theorem Plain.of_prefix {front : ContextStack} (h : stack.Plain)
    (hp : front.entries <+: stack.entries) : front.Plain := fun c hc => h c (hp.subset hc)

theorem Plain.relocate (h : stack.Plain) {move : Location → Location}
    (hm : ∀ l : Location, l.Plain → (move l).Plain) : (stack.relocate move).Plain := by
  intro c hc
  obtain ⟨old, ho, rfl⟩ := List.mem_map.mp hc
  exact hm _ (h old ho)

theorem Plain.remember (h : stack.Plain) (chained : Bool) {context : Context}
    (hc : context.location.Plain) : (stack.remember chained context).Plain := by
  have hbase : (if chained then stack else empty).Plain := by
    cases chained with
    | true => exact h
    | false => exact plain_empty
  rw [ContextStack.remember]
  generalize (if chained then stack else empty) = base at hbase
  split
  · exact hbase
  · intro c hm
    rcases List.mem_append.mp hm with hm | hm
    · exact hbase c hm
    · rw [List.mem_singleton.mp hm]
      exact hc

end ContextStack

theorem Destination.plain_rebase (op : Operation) (value : String) (d : Destination)
    {l : Location} (h : l.Plain) : (d.rebase op value l).Plain := by
  unfold rebase
  split
  · split
    · exact h.moveIndex _ _
    · exact h
  · split
    · exact h.moveIndex _ _
    · exact h
  · exact h

theorem Place.Of.plain {slot : Slot} {place : Place} (h : place.Of slot) :
    Segment.Plain place.lastStep.text := by
  cases h with
  | field known held plain => exact plain
  | element => exact Step.plain_index _
  | entry sort plain => exact plain

namespace Cursor

variable {root : Value RecordType} {cursor next : Cursor}

theorem plain_of_place {segment : String} {place : Place} (hs : Segment.Plain segment)
    (hp : cursor.place root segment = .ok place) : Segment.Plain place.lastStep.text := by
  obtain ⟨target, -, ho⟩ := ofSegment_of_place hp
  have hl := Place.ofSegment_lands cursor.kind target hs
  rw [ho] at hl
  exact Place.Of.plain hl

theorem plain_of_advance (h : cursor.location.Plain) {segment : String}
    (hs : Segment.Plain segment) (ha : cursor.advance root segment = .ok next) :
    next.location.Plain := by
  rw [advance] at ha
  split at ha
  · contradiction
  · rename_i place hp
    split at ha
    · contradiction
    · rename_i step ht
      cases ha
      obtain ⟨target, -, ho⟩ := ofSegment_of_place hp
      have hl := Place.ofSegment_lands cursor.kind target hs
      rw [ho] at hl
      have hstep := Place.step_lands segment hl
      rw [ht] at hstep
      exact h.child hstep.2

theorem plain_of_walk (h : cursor.location.Plain) {segments : List String}
    (hs : ∀ s ∈ segments, Segment.Plain s) (hw : cursor.walk root segments = .ok next) :
    next.location.Plain := by
  induction segments generalizing cursor with
  | nil =>
    cases hw
    exact h
  | cons segment rest ih =>
    rw [walk] at hw
    split at hw
    · contradiction
    · rename_i middle ha
      have hm := plain_of_advance h (hs segment List.mem_cons_self) ha
      exact ih hm (fun s hm => hs s (List.mem_cons_of_mem _ hm)) hw

theorem plain_of_destination (h : cursor.location.Plain) {segments : List String} {last : String}
    {d : Destination} (hs : ∀ s ∈ segments, Segment.Plain s) (hl : Segment.Plain last)
    (hd : cursor.destination root segments last = .ok d) : d.slot.Plain := by
  rw [destination] at hd
  split at hd
  · contradiction
  · rename_i container hw
    split at hd
    · contradiction
    · rename_i place hp
      cases hd
      exact (plain_of_walk h hs hw).child (plain_of_place hl hp)

end Cursor

namespace FieldPath

variable {root : Value RecordType} {contexts : ContextStack} {path : FieldPath} {d : Destination}

theorem plain_of_origin (h : contexts.Plain) {cursor : Cursor}
    (ho : path.origin root contexts = .ok cursor) : cursor.location.Plain := by
  cases hu : path.usesContext with
  | true =>
    obtain ⟨c, hg, rfl, -⟩ := origin_of_context hu ho
    exact h c (ContextStack.mem_of_get? hg)
  | false =>
    unfold origin at ho
    rw [if_neg (by simp [hu])] at ho
    split at ho
    · cases ho
      exact Location.plain_nil
    · contradiction

/-- No path starts at a context that stands for the root. -/
theorem below_of_origin (hu : path.usesContext = true) {cursor : Cursor}
    (ho : path.origin root contexts = .ok cursor) : cursor.location ≠ [] := by
  unfold origin at ho
  rw [if_pos hu] at ho
  split at ho
  · contradiction
  · split at ho
    · contradiction
    · rename_i context hg hfresh
      cases ho
      intro hroot
      have hempty : context.location.isEmpty = true := List.isEmpty_iff.mpr hroot
      exact hfresh (by rw [hempty, Bool.true_or])

theorem plain_of_destination (h : contexts.Plain) (hp : path.Plain)
    (hd : path.destination root contexts = .ok d) : d.slot.Plain := by
  by_cases hs : path.segments = []
  · obtain ⟨hu, -⟩ := destination_of_bare hs hd
    obtain ⟨c, hg, hj⟩ := joins_of_destination hu hd
    rw [(hj.own hs).1]
    exact h c (ContextStack.mem_of_get? hg)
  · rw [destination] at hd
    split at hd
    · contradiction
    · rename_i cursor ho
      split at hd
      · rename_i hl
        exact absurd (List.getLast?_eq_none_iff.mp hl) hs
      · rename_i last hl
        have hfront (s : String) (hm : s ∈ path.segments.dropLast) : Segment.Plain s :=
          hp.segments s (List.dropLast_subset _ hm)
        have hlast : Segment.Plain last := hp.segments last (List.mem_of_getLast? hl)
        exact Cursor.plain_of_destination (plain_of_origin h ho) hfront hlast hd

end FieldPath

/-- An edit of a slot that can be named leaves contexts that can be named. -/
theorem Site.Account.plain {op : Operation} {value : String} {contexts : ContextStack}
    {path : FieldPath} {d : Destination} {loss : Loss} {outcome : Outcome} {done : Editing}
    (h : (d.site op value contexts path).Account loss outcome done) (hc : contexts.Plain)
    (hd : d.slot.Plain) : done.contexts.Plain := by
  have hfront : (path.front contexts).Plain := hc.of_prefix (FieldPath.isPrefix_front _ _)
  have hkept : ((d.site op value contexts path).kept loss).Plain :=
    (hfront.of_prefix (ContextStack.isPrefix_keepUntil _ _)).relocate
      fun _ => Destination.plain_rebase op value d
  cases ho : done.progress.opens outcome with
  | false =>
    rw [h.closed ho]
    exact hkept
  | true =>
    obtain ⟨-, -, -, segment, he⟩ := h.opened ho
    rw [he]
    exact hkept.remember _ hd

end FieldPatch
