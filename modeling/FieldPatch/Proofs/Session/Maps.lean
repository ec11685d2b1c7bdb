import FieldPatch.Proofs.Edit.Contents
import FieldPatch.Proofs.Session.Addressed
import FieldPatch.Proofs.Session.Arrival

namespace FieldPatch

namespace Table

variable {κ α : Type} [DecidableEq κ] {table : List (κ × α)}

omit [DecidableEq κ] in
theorem ne_of_mem {key : κ} {e : κ × α} (hn : key ∉ keys table) (he : e ∈ table) : e.1 ≠ key := by
  rintro rfl
  exact hn (List.mem_map_of_mem he)

theorem set_eq_map (h : (keys table).Nodup) (key : κ) (a : α) :
    set key a table = table.map fun e => if e.1 = key then (key, a) else e := by
  induction table with
  | nil => rfl
  | cons e rest ih =>
    obtain ⟨k, b⟩ := e
    obtain ⟨hn, hr⟩ := List.nodup_cons.mp h
    rw [set, List.map_cons]
    by_cases hk : k = key
    · subst hk
      have hrest : (rest.map fun e => if e.1 = k then (k, a) else e) = rest :=
        (List.map_congr_left fun e he => if_neg (ne_of_mem hn he)).trans (List.map_id _)
      rw [if_pos rfl, if_pos rfl, hrest]
    · rw [if_neg hk, if_neg hk, ih hr]

theorem erase_eq_filter (h : (keys table).Nodup) (key : κ) :
    erase key table = table.filter fun e => e.1 ≠ key := by
  induction table with
  | nil => rfl
  | cons e rest ih =>
    obtain ⟨k, b⟩ := e
    obtain ⟨hn, hr⟩ := List.nodup_cons.mp h
    rw [erase]
    by_cases hk : k = key
    · subst hk
      have hrest : (rest.filter fun e => e.1 ≠ k) = rest :=
        List.filter_eq_self.mpr fun e he => decide_eq_true (ne_of_mem hn he)
      rw [if_pos rfl, List.filter_cons_of_neg (by simp), hrest]
    · rw [if_neg hk, List.filter_cons_of_pos (by simpa using hk), ih hr]

theorem contains_iff {key : κ} : contains key table = true ↔ key ∈ keys table := by
  have := get?_eq_none_iff key table
  rw [contains, Option.isSome_iff_ne_none, ne_eq, this, not_not]

end Table

/-- Two texts that are the same key: equal ones for keys that are texts, and ones that are read as
the same number for keys that are numbers. -/
def Kind.SameKey (keyKind : Kind RecordType) (text other : String) : Prop :=
  match keyKind with
  | string => text = other
  | int => ∃ n, Integer.read? text = some n ∧ Integer.read? other = some n
  | _ => False

theorem Kind.key_iff_sameKey {keyKind : Kind RecordType} {text other : String} {key : Key}
    (h : keyKind.key text = .ok key) :
    keyKind.key other = .ok key ↔ keyKind.SameKey text other := by
  unfold Kind.key at h ⊢
  unfold SameKey
  cases keyKind with
  | string =>
    cases h
    simp [eq_comm]
  | int =>
    dsimp only at h ⊢
    cases ht : Integer.read? text with
    | none => simp [ht] at h
    | some n =>
      simp only [ht, Except.ok.injEq] at h
      subst h
      cases ho : Integer.read? other with
      | none => simp
      | some m => simp [eq_comm]
  | _ => contradiction

section

variable {root : Value RecordType} {map : Location} {keyKind kind : Kind RecordType}
  {entries : List (Key × Value RecordType)} {text : String}

theorem Cursor.place_of_key {key : Key} (hm : root.at? map = some (.map entries))
    (hk : keyKind.key text = .ok key) :
    Cursor.place root ⟨map, .map keyKind kind⟩ text = .ok (.entry entries key kind) := by
  simp only [Cursor.place, hm, Place.ofSegment, hk]

theorem Cursor.place_of_no_key {fault : Fault} (hm : root.at? map = some (.map entries))
    (hk : keyKind.key text = .error fault) :
    Cursor.place root ⟨map, .map keyKind kind⟩ text = .error fault := by
  simp only [Cursor.place, hm, Place.ofSegment, hk]

end

namespace Stage

variable {stage : Stage}

/-- What the edit makes of a map at a key. -/
structure EditsMap (stage : Stage) (map : Location) (entries : List (Key × Value RecordType))
    (kind : Kind RecordType) (key : Key) : Prop where
  inserts : stage.op = .insert → key ∉ Table.keys entries →
    stage.Grows map kind fun entry => .map (entries ++ [(key, entry)])
  keeps : stage.op = .insert → key ∈ Table.keys entries →
    stage.turn.outcome = .noOp ∧ stage.turn.root = stage.target.value
  removes : stage.op = .remove → key ∈ Table.keys entries →
    stage.turn.outcome = .removed ∧
      stage.target.value.replace? map (.map (entries.filter fun e => e.1 ≠ key)) =
        some stage.turn.root
  changes : stage.op ≠ .insert → stage.op ≠ .remove → key ∈ Table.keys entries →
    ∃ entry, stage.target.value.replace? map
      (.map (entries.map fun e => if e.1 = key then (key, entry) else e)) = some stage.turn.root
  missing : stage.op ≠ .insert → key ∉ Table.keys entries →
    stage.turn.outcome = .faulted (.missingKey key) ∧ stage.turn.root = stage.target.value
  distinct : ∃ after, stage.turn.root.at? map = some (.map after) ∧ (Table.keys after).Nodup

/-- An edit that comes to a key of a map makes of the map what its operation says. -/
theorem Comes.editsMap {path : FieldPath} {map : Location}
    {entries : List (Key × Value RecordType)} {key : Key} {kind : Kind RecordType}
    {arrived : Editing} (hc : stage.Comes path ⟨map, .entry entries key kind⟩ arrived)
    (hd : (Table.keys entries).Nodup) : stage.EditsMap map entries kind key := by
  let standing : Editing := { arrived with progress := { arrived.progress with atEnd := true } }
  have hr : standing.root = stage.target.value := hc.arrives.root
  have ho : standing.progress.op = stage.op := hc.arrives.op
  have hv : standing.progress.value = stage.input := hc.arrives.value
  have hm : standing.root.at? map = some (.map entries) := hr ▸ hc.arrives.held
  have hedit : Editing.EditsEntries stage.session.tags map entries key kind standing
      (Editing.editDestination stage.session.tags ⟨map, .entry entries key kind⟩ arrived) :=
    Editing.editEntry_edits hm
  have houtcome := hc.outcome
  have hroot := hc.root
  generalize Editing.editDestination stage.session.tags ⟨map, .entry entries key kind⟩ arrived =
    r at hedit houtcome hroot
  have absent (hn : key ∉ Table.keys entries) : Table.contains key entries = false := by
    rw [Bool.eq_false_iff]
    exact mt Table.contains_iff.mp hn
  constructor
  case inserts =>
    intro hop hn
    exact grows_of_inserts (hedit.inserts (ho.trans hop) (absent hn)) hr hv houtcome hroot
  case keeps =>
    intro hop hn
    obtain ⟨hout, hstill⟩ := hedit.keeps (ho.trans hop) (Table.contains_iff.mpr hn)
    rw [Editing.ending, hout] at houtcome
    exact ⟨houtcome, by rw [hroot, hstill, hr]⟩
  case removes =>
    intro hop hn
    obtain ⟨hout, hwritten⟩ := hedit.removes (ho.trans hop) (Table.contains_iff.mpr hn)
    rw [Editing.ending, hout] at houtcome
    rw [hr, ← hroot, Table.erase_eq_filter hd] at hwritten
    exact ⟨houtcome, hwritten⟩
  case changes =>
    intro hni hnr hn
    obtain ⟨entry, hwritten⟩ := hedit.changes (ho ▸ hni) (ho ▸ hnr) (Table.contains_iff.mpr hn)
    rw [hr, ← hroot, Table.set_eq_map hd] at hwritten
    exact ⟨entry, hwritten⟩
  case missing =>
    intro hni hn
    rw [hedit.missing (ho ▸ hni) (absent hn)] at houtcome hroot
    exact ⟨houtcome, by rw [hroot, hr]⟩
  case distinct =>
    rw [hroot]
    exact hedit.distinct hm hd

/-- Every edit that comes to a map makes of it what its operation says, at the key that the last
segment stands for; a segment that stands for none is a fault. Another segment in its place leads to
the same entry exactly if it is the same key. -/
theorem map_edited {path : FieldPath} {map : Location} {keyKind kind : Kind RecordType}
    {last : String} {entries : List (Key × Value RecordType)} (ha : stage.Attempted)
    (hp : FieldPath.parse stage.request.path = .ok path)
    (hw : path.LeadsInto stage.target.value stage.contexts ⟨map, .map keyKind kind⟩ last)
    (hm : stage.target.value.at? map = some (.map entries))
    (hd : (Table.keys entries).Nodup) :
    (∀ key, keyKind.key last = .ok key →
      stage.EditsMap map entries kind key ∧
      ∀ other, (path.withLast other).destination stage.target.value stage.contexts =
        path.destination stage.target.value stage.contexts ↔ keyKind.SameKey last other) ∧
    ∀ fault, keyKind.key last = .error fault →
      stage.turn.outcome = .faulted fault ∧ stage.turn.root = stage.target.value := by
  constructor
  · intro key hk
    obtain ⟨arrived, hc, -⟩ := comes_into ha hp hw (Cursor.place_of_key hm hk)
    refine ⟨hc.editsMap hd, fun other => ?_⟩
    rw [← Kind.key_iff_sameKey hk, hw.destination, (hw.withLast other).destination,
      Cursor.place_of_key hm hk]
    cases ho : keyKind.key other with
    | error fault =>
      rw [Cursor.place_of_no_key hm ho]
      simp
    | ok found =>
      rw [Cursor.place_of_key hm ho]
      simp
  · intro fault hk
    exact faults_into ha hp hw (Cursor.place_of_no_key hm hk)

/-- A list of parts comes in under the number 4, which is written in two ways. -/
theorem ship_gains_parts :
    let map : Location := [.field "parts"]
    let kind : Kind RecordType := .list (.interface "IPart")
    let entries := [(Key.int (-3), Value.list [.null, RecordType.part.fresh])]
    let target : Object := ⟨.loose 0, RecordType.ship.fresh⟩
    let stage : Stage :=
      ⟨(Session.start {} []).1, target, { path := "parts.+4", value := "!+" }⟩
    let path : FieldPath := ⟨0, ["parts", "+4"]⟩
    stage.Attempted ∧ FieldPath.parse stage.request.path = .ok path ∧
      path.LeadsInto target.value stage.contexts ⟨map, .map .int kind⟩ "+4" ∧
      target.value.at? map = some (.map entries) ∧ (Table.keys entries).Nodup ∧
      stage.EditsMap map entries kind (.int 4) ∧
      (path.withLast "04").destination target.value stage.contexts =
        path.destination target.value stage.contexts := by
  intro map kind entries target stage path
  have ha : stage.Attempted := by decide +kernel
  have hp : FieldPath.parse stage.request.path = .ok path := by decide +kernel
  have hw : path.LeadsInto target.value stage.contexts ⟨map, .map .int kind⟩ "+4" :=
    ⟨rfl, _, rfl, rfl⟩
  have hm : target.value.at? map = some (.map entries) := by rfl
  have hd : (Table.keys entries).Nodup := by simp [Table.keys, entries]
  have hr : Integer.read? "+4" = some 4 := by decide +kernel
  have hr' : Integer.read? "04" = some 4 := by decide +kernel
  have hk : Kind.key .int "+4" = .ok (.int 4) := by simp only [Kind.key, hr]
  obtain ⟨hedits, htexts⟩ := (map_edited ha hp hw hm hd).1 _ hk
  exact ⟨ha, hp, hw, hm, hd, hedits, (htexts "04").mpr ⟨4, hr, hr'⟩⟩

end Stage

end FieldPatch
