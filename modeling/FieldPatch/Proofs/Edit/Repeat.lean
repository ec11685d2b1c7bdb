import FieldPatch.Proofs.Edit.Effect
import FieldPatch.Proofs.Edit.Revisit

namespace FieldPatch

/-- The map at the place has distinct keys, if the place is in a map. -/
def Place.Distinct : Place → Prop
  | entry entries _ _ => (Table.keys entries).Nodup
  | field _ _ | element _ _ _ => True

instance : DecidablePred Place.Distinct
  | .entry entries _ _ => inferInstanceAs (Decidable (Table.keys entries).Nodup)
  | .field _ _ | .element _ _ _ => inferInstanceAs (Decidable True)

namespace Editing

variable {tags : TagTable} {kind : Kind RecordType} {e e' : Editing} {d d' : Destination}

/-- Without a value and without an entry to make of none, an insertion changes nothing. -/
theorem Inserts.root_of_unmade {container : Location}
    {grown : Value RecordType → Value RecordType} {moved : ContextStack} {r : Result}
    (h : Inserts tags container kind grown moved e r)
    (blank : Text.allBlank e.progress.value = true)
    (unmade : ∀ entry, ¬ kind.Entry tags e.progress.value entry) : r.2.root = e.root := by
  cases h with
  | made filled told written => exact absurd filled (unmade _)
  | refused blank' sort unmade' root contexts => exact root
  | left given sort unmade' written contexts => simp [blank] at given

/-- A key comes into a map once, and leaves it once. -/
theorem editEntry_again {map : Location} {entries entries' : List (Key × Value RecordType)}
    {key : Key} (hm : e.root.at? map = some (.map entries))
    (hm' : e'.root.at? map = some (.map entries')) (hd : (Table.keys entries).Nodup)
    (ho : e.progress.op = .insert ∨ e.progress.op = .remove)
    (hop : e'.progress.op = e.progress.op) (hv : e'.progress.value = e.progress.value)
    (hr : e'.root = (editEntry tags map entries key kind e).2.root) :
    (editEntry tags map entries' key kind e').2.root = e'.root := by
  have h : EditsEntries tags map entries key kind e _ := editEntry_edits hm
  have h' : EditsEntries tags map entries' key kind e' _ := editEntry_edits hm'
  -- Where the first edit wrote the map, the second one finds it as it was written.
  have written {after : List (Key × Value RecordType)}
      (hw : e.root.replace? map (.map after) = some (editEntry tags map entries key kind e).2.root) :
      entries' = after := by
    have ha := Value.at?_of_replace? hw
    rw [← hr, hm'] at ha
    simpa using ha
  have still (hs : (editEntry tags map entries key kind e).2.root = e.root) :
      entries' = entries := by
    rw [hs] at hr
    rw [hr, hm] at hm'
    simpa using hm'.symm
  cases hc : Table.contains key entries with
  | true =>
    rcases ho with ho | ho
    · obtain rfl := still (h.keeps ho hc).2
      exact (h'.keeps (hop.trans ho) hc).2
    · obtain rfl := written (h.removes ho hc).2
      have hgone : Table.contains key (Table.erase key entries) = false := by
        rw [Table.contains, Table.get?_erase key hd, if_pos rfl]
        rfl
      rw [h'.missing (by simp [hop, ho]) hgone]
  | false =>
    rcases ho with ho | ho
    · have hnew (entry : Value RecordType) :
          Table.contains key (entries ++ [(key, entry)]) = true := by
        rw [Table.contains, Table.get?_append_self (by simpa [Table.contains] using hc)]
        rfl
      have hins := h.inserts ho hc
      generalize editEntry tags map entries key kind e = r at hins written still
      cases hins with
      | made filled told hw =>
        obtain rfl := written hw
        exact (h'.keeps (hop.trans ho) (hnew _)).2
      | refused blank sort unmade root contexts =>
        obtain rfl := still root
        have hins' := h'.inserts (hop.trans ho) hc
        exact hins'.root_of_unmade (hv ▸ blank) (hv ▸ unmade)
      | left given sort unmade hw contexts =>
        obtain rfl := written hw
        exact (h'.keeps (hop.trans ho) (hnew _)).2
    · have hs := h.missing (by simp [ho]) hc
      obtain rfl := still (by rw [hs])
      rw [h'.missing (by simp [hop, ho]) hc]

/-- The same request of a slot has no further effect. -/
theorem editSlot_again (hh : d.Held e.root) (hh' : d'.Held e'.root)
    (own : d.place.resizes e.progress.op = false) (hc : d'.container = d.container)
    (hp : d.place.Same d'.place) (ha : e'.asks = e.asks)
    (hr : e'.root = (editDestination tags d e).2.root) :
    (editDestination tags d' e').2.root = e'.root := by
  have hslot : d'.slot = d.slot := Destination.slot_of_same hc hp
  have hop : e'.progress.op = e.progress.op := congrArg SlotRequest.op ha
  have own' : d'.place.resizes e'.progress.op = false := by rw [hop, hp.resizes, own]
  have absent (hn : e'.root.at? d.slot = none) :
      (editDestination tags d' e').2.root = e'.root := by
    obtain ⟨fault, left, he, hl⟩ := editDestination_of_absent tags hh' own' (hslot ▸ hn)
    rw [he]
    exact hl
  cases hs : e.root.at? d.slot with
  | none =>
    obtain ⟨fault, left, he, hl⟩ := editDestination_of_absent tags hh own hs
    have hroot : e'.root = e.root := by rw [hr, he]; exact hl
    exact absent (by rw [hroot, hs])
  | some current =>
    have hfirst := (editDestination_affects tags hh own hs).written
    have hs' : e'.root.at? d'.slot = some (e.asks.effect tags d.place.kind current).2 := by
      rw [hslot, hr]
      exact Value.at?_of_replace? hfirst
    have hsecond := (editDestination_affects tags hh' own' hs').written
    rw [ha, hp.kind, SlotRequest.effect_again, Value.replace?_self hs'] at hsecond
    exact (Option.some.inj hsecond).symm

/-- An edit that comes again to its place leaves there what it has left before. -/
theorem editDestination_again (hh : d.Held e.root) (hh' : d'.Held e'.root)
    (hn : d.place.shifts e.progress.op = false) (hk : d.place.Distinct)
    (hc : d'.container = d.container) (hp : d.place.Same d'.place) (ha : e'.asks = e.asks)
    (hr : e'.root = (editDestination tags d e).2.root) :
    (editDestination tags d' e').2.root = e'.root := by
  cases own : d.place.resizes e.progress.op with
  | false => exact editSlot_again hh hh' own hc hp ha hr
  | true =>
    have hop : e'.progress.op = e.progress.op := congrArg SlotRequest.op ha
    have hv : e'.progress.value = e.progress.value := congrArg SlotRequest.value ha
    obtain ⟨container, place⟩ := d
    obtain ⟨container', place'⟩ := d'
    obtain rfl : container = container' := hc.symm
    -- Of the containers that grow and shrink, only a map is left.
    cases hp with
    | field name kind => contradiction
    | element index kind length => cases own.symm.trans hn
    | entry key kind =>
      have ho : e.progress.op = .insert ∨ e.progress.op = .remove := by
        simpa [Place.resizes] using own
      let first : Editing := { e with progress := { e.progress with atEnd := true } }
      let second : Editing := { e' with progress := { e'.progress with atEnd := true } }
      have hm : first.root.at? container = _ := hh
      have hm' : second.root.at? container = _ := hh'
      exact editEntry_again hm hm' hk ho hop hv hr

end Editing

end FieldPatch
