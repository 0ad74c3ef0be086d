import AssistantHub.FlatRows
import AssistantHub.KeyedTable
import Mathlib.Data.Finmap

namespace AssistantHub.IndexStore

open AssistantHub.FlatRows
open AssistantHub.KeyedTable

abbrev Error := String

inductive Kind where
  | series
  | movie
  | episode
  deriving DecidableEq, Repr

def Kind.fromJellyfin (t : String) : Option Kind :=
  if t = "Series" then some .series
  else if t = "Movie" then some .movie
  else if t = "Episode" then some .episode
  else none

/-- One indexed item. `hash` is the FNV-1a hash of the text that was embedded. -/
structure Entry where
  id : String
  kind : Kind
  name : String
  seriesId : Option String
  seriesName : Option String
  hash : UInt64
  deriving DecidableEq, Repr

def fnv1a (text : String) : UInt64 :=
  text.toUTF8.data.toList.foldl
    (fun h b => (h ^^^ b.toUInt64) * 0x00000100000001b3) 0xcbf29ce484222325

example : fnv1a "Spy x Family" = 0x94efb4862674a08f := by decide

/-- The entries, the vectors of all entries in one flat buffer, and the
position of each ID. `F` is the type of a vector component. -/
structure Index (F : Type) where
  dims : Nat
  entries : List Entry
  vectors : List F
  byId : Finmap fun _ : String => Nat

def Index.new {F : Type} (dims : Nat) : Index F :=
  { dims := dims, entries := [], vectors := [], byId := ∅ }

/-- The source indexes `entries` with the position and panics out of range;
`WellFormed.get_eq_find` shows that a position is always in range. -/
def Index.get {F : Type} (ix : Index F) (id : String) : Option Entry :=
  (ix.byId.lookup id).bind fun i => ix.entries[i]?

/-- Collect the IDs with their positions; a later position wins. -/
def positions (entries : List Entry) : Finmap fun _ : String => Nat :=
  entries.zipIdx.foldl (fun byId p => byId.insert p.1.id p.2) ∅

def Index.upsert {F : Type} (ix : Index F) (entry : Entry)
    (vector : List F) : Except Error Unit × Index F :=
  if vector.length ≠ ix.dims then
    (.error s!"vector has {vector.length} values, the index {ix.dims}", ix)
  else
    match ix.byId.lookup entry.id with
    | some i =>
        (.ok (), { ix with
          entries := ix.entries.set i entry
          vectors := setRow ix.dims ix.vectors i vector })
    | none =>
        (.ok (), { ix with
          byId := ix.byId.insert entry.id ix.entries.length
          entries := ix.entries ++ [entry]
          vectors := ix.vectors ++ vector })

/-- Remove entries. Returns how many were there. -/
def Index.remove {F : Type} (ix : Index F) (ids : List String) :
    Nat × Index F :=
  let kept := ix.entries.zipIdx.filter fun p => p.1.id ∉ ids
  let entries := kept.map Prod.fst
  let vectors := kept.flatMap fun p =>
    slice ix.vectors (p.2 * ix.dims) ((p.2 + 1) * ix.dims)
  (ix.entries.length - entries.length,
    { ix with
      entries := entries
      vectors := vectors
      byId := positions entries })

def rowId {F : Type} (r : Entry × List F) : String := r.1.id

/-- Each entry with its vector, in the order of the index. -/
def Index.rows {F : Type} (ix : Index F) : List (Entry × List F) :=
  ix.entries.zipIdx.map fun p => (p.1, row ix.dims ix.vectors p.2)

def Index.find {F : Type} (ix : Index F) (id : String) :
    Option (Entry × List F) :=
  ix.rows.find? fun r => rowId r = id

/-- The representation invariant of the three parallel structures. -/
structure Index.WellFormed {F : Type} (ix : Index F) : Prop where
  vectors_length : ix.vectors.length = ix.entries.length * ix.dims
  ids_nodup : (ix.entries.map Entry.id).Nodup
  byId_iff : ∀ id i,
    ix.byId.lookup id = some i ↔ (ix.entries.map Entry.id)[i]? = some id

/-- Two indexes map the same IDs to the same entries and vectors. -/
def Index.SameMap {F : Type} (ix jx : Index F) : Prop :=
  ∀ id, ix.find id = jx.find id

/-- The flat buffers of an index spell out a list of rows with distinct IDs. -/
structure Index.Spells {F : Type} (ix : Index F)
    (rs : List (Entry × List F)) : Prop where
  entries_eq : ix.entries = rs.map Prod.fst
  vectors_eq : ix.vectors = (rs.map Prod.snd).flatten
  length_eq : ∀ r ∈ rs, r.2.length = ix.dims
  nodup : (rs.map rowId).Nodup
  byId_iff : ∀ id i,
    ix.byId.lookup id = some i ↔ (rs.map rowId)[i]? = some id

theorem getElem?_append_new {ids : List String} {new : String}
    (hnew : new ∉ ids) (id : String) (i : Nat) :
    (ids ++ [new])[i]? = some id ↔
      if id = new then i = ids.length else ids[i]? = some id := by
  rw [List.getElem?_append]
  split
  · rename_i hi
    split
    · rename_i hid
      subst hid
      constructor
      · intro heq
        exact absurd (List.mem_of_getElem? heq) hnew
      · intro heq
        omega
    · rfl
  · rename_i hi
    rw [List.getElem?_singleton, List.getElem?_eq_none (by omega)]
    split
    · rename_i hzero
      split
      · rename_i hid
        simp only [hid, true_iff]
        omega
      · rename_i hid
        simp [Ne.symm hid]
    · split
      · simp only [reduceCtorEq, false_iff]
        omega
      · rfl

theorem lookup_positions {entries : List Entry}
    (h : (entries.map Entry.id).Nodup) (id : String) (i : Nat) :
    (positions entries).lookup id = some i ↔
      (entries.map Entry.id)[i]? = some id := by
  induction entries using List.reverseRecOn generalizing i with
  | nil => simp [positions]
  | append_singleton entries e ih =>
      rw [List.map_append, List.nodup_append'] at h
      have hnew : e.id ∉ entries.map Entry.id := by
        simpa using h.2.2.symm
      have hstep : positions (entries ++ [e]) =
          (positions entries).insert e.id entries.length := by
        simp [positions, List.zipIdx_append, List.foldl_append]
      rw [hstep, List.map_append, List.map_singleton,
        getElem?_append_new hnew, List.length_map]
      by_cases hid : id = e.id
      · rw [if_pos hid, hid, Finmap.lookup_insert, Option.some.injEq, eq_comm]
      · rw [if_neg hid, Finmap.lookup_insert_of_ne _ hid, ih h.1]

theorem map_fst_rows {F : Type} (ix : Index F) :
    ix.rows.map Prod.fst = ix.entries := by
  simp [Index.rows, Function.comp_def]

theorem map_rowId_rows {F : Type} (ix : Index F) :
    ix.rows.map rowId = ix.entries.map Entry.id := by
  rw [← map_fst_rows ix, List.map_map]
  rfl

theorem length_rows {F : Type} (ix : Index F) :
    ix.rows.length = ix.entries.length := by
  simp [Index.rows]

theorem map_snd_rows {F : Type} (ix : Index F) :
    ix.rows.map Prod.snd =
      (List.range ix.entries.length).map (row ix.dims ix.vectors) := by
  rw [Index.rows, List.map_map]
  have hsnd : ix.entries.zipIdx.map Prod.snd =
      List.range ix.entries.length := by
    simp [List.range_eq_range']
  rw [← hsnd, List.map_map]
  rfl

theorem getElem?_rows {F : Type} (ix : Index F) (i : Nat) :
    ix.rows[i]? = ix.entries[i]?.map fun e => (e, row ix.dims ix.vectors i) := by
  simp [Index.rows, List.getElem?_zipIdx, Function.comp_def]

theorem Index.Spells.rows_eq {F : Type} {ix : Index F}
    {rs : List (Entry × List F)} (h : ix.Spells rs) : ix.rows = rs := by
  apply List.ext_getElem?
  intro i
  rw [getElem?_rows, h.entries_eq, List.getElem?_map, Option.map_map]
  cases hr : rs[i]? with
  | none => rfl
  | some r =>
      obtain ⟨hi, rfl⟩ := List.getElem?_eq_some_iff.mp hr
      have hlength : ∀ v ∈ rs.map Prod.snd, v.length = ix.dims := by
        intro v hv
        obtain ⟨r, hr, rfl⟩ := List.mem_map.mp hv
        exact h.length_eq r hr
      have hrow : row ix.dims ix.vectors i = rs[i].2 := by
        rw [h.vectors_eq, row_flatten hlength (by simpa using hi),
          List.getElem_map]
      simp [hrow]

theorem Index.Spells.wellFormed {F : Type} {ix : Index F}
    {rs : List (Entry × List F)} (h : ix.Spells rs) : ix.WellFormed := by
  have hids : ix.entries.map Entry.id = rs.map rowId := by
    rw [h.entries_eq, List.map_map]
    rfl
  refine { vectors_length := ?_, ids_nodup := ?_, byId_iff := ?_ }
  · have hconst : (rs.map Prod.snd).map List.length =
        List.replicate rs.length ix.dims := by
      rw [List.map_map, List.eq_replicate_iff]
      refine ⟨by simp, ?_⟩
      intro n hn
      obtain ⟨r, hr, rfl⟩ := List.mem_map.mp hn
      exact h.length_eq r hr
    rw [h.vectors_eq, List.length_flatten, hconst, h.entries_eq]
    simp
  · rw [hids]
    exact h.nodup
  · rw [hids]
    exact h.byId_iff

theorem Index.WellFormed.spells {F : Type} {ix : Index F}
    (h : ix.WellFormed) : ix.Spells ix.rows := by
  refine
    { entries_eq := (map_fst_rows ix).symm
      vectors_eq := ?_
      length_eq := ?_
      nodup := by rw [map_rowId_rows]; exact h.ids_nodup
      byId_iff := by rw [map_rowId_rows]; exact h.byId_iff }
  · rw [map_snd_rows, flatten_map_row, ← h.vectors_length, List.take_length]
  · intro r hr
    have hmem : r.2 ∈ ix.rows.map Prod.snd := List.mem_map_of_mem hr
    rw [map_snd_rows] at hmem
    obtain ⟨i, hi, hrow⟩ := List.mem_map.mp hmem
    rw [← hrow]
    exact length_row h.vectors_length (List.mem_range.mp hi)

def Index.WellFormed.table {F : Type} {ix : Index F} (h : ix.WellFormed) :
    Table (rowId (F := F)) :=
  ⟨ix.rows, h.spells.nodup⟩

theorem spells_new {F : Type} (dims : Nat) :
    (Index.new dims : Index F).Spells [] :=
  { entries_eq := rfl
    vectors_eq := rfl
    length_eq := by simp
    nodup := by simp
    byId_iff := by simp [Index.new] }

theorem spells_upsert {F : Type} {ix : Index F} {rs : List (Entry × List F)}
    (h : ix.Spells rs) {entry : Entry} {vector : List F}
    (hlength : vector.length = ix.dims) :
    (ix.upsert entry vector).2.Spells (putRows rowId (entry, vector) rs) := by
  have hvectors : ∀ v ∈ rs.map Prod.snd, v.length = ix.dims := by
    intro v hv
    obtain ⟨r, hr, rfl⟩ := List.mem_map.mp hv
    exact h.length_eq r hr
  rw [Index.upsert, if_neg (by simpa using hlength)]
  cases hl : ix.byId.lookup entry.id with
  | some i =>
      have hi : (rs.map rowId)[i]? = some (rowId (entry, vector)) :=
        (h.byId_iff entry.id i).mp hl
      have hbound : i < rs.length := by
        simpa using (List.getElem?_eq_some_iff.mp hi).1
      have hsame : (rs.set i (entry, vector)).map rowId = rs.map rowId := by
        obtain ⟨hi', heq⟩ := List.getElem?_eq_some_iff.mp hi
        rw [List.map_set, ← heq, List.set_getElem_self]
      rw [putRows_of_key_eq h.nodup hi]
      refine
        { entries_eq := ?_, vectors_eq := ?_, length_eq := ?_, nodup := ?_,
          byId_iff := ?_ }
      · rw [List.map_set, ← h.entries_eq]
      · change setRow ix.dims ix.vectors i vector = _
        rw [List.map_set, h.vectors_eq,
          setRow_flatten hvectors (by simpa using hbound)]
      · intro r hr
        rcases List.mem_or_eq_of_mem_set hr with hr | rfl
        · exact h.length_eq r hr
        · exact hlength
      · rw [hsame]
        exact h.nodup
      · rw [hsame]
        exact h.byId_iff
  | none =>
      have hnew : rowId (entry, vector) ∉ rs.map rowId := by
        intro hmem
        obtain ⟨i, hi⟩ := List.getElem?_of_mem hmem
        rw [← h.byId_iff] at hi
        exact absurd (hl.symm.trans hi) (by simp)
      have hentries : ix.entries.length = (rs.map rowId).length := by
        rw [h.entries_eq, List.length_map, List.length_map]
      refine
        { entries_eq := ?_, vectors_eq := ?_, length_eq := ?_
          nodup := nodup_putRows h.nodup, byId_iff := ?_ }
      · simp [putRows_of_not_mem hnew, h.entries_eq]
      · simp [putRows_of_not_mem hnew, h.vectors_eq]
      · rw [putRows_of_not_mem hnew]
        intro r hr
        rcases List.mem_append.mp hr with hr | hr
        · exact h.length_eq r hr
        · rw [List.mem_singleton.mp hr]
          exact hlength
      · intro id i
        rw [putRows_of_not_mem hnew, List.map_append, List.map_singleton,
          getElem?_append_new hnew, ← h.byId_iff, ← hentries]
        by_cases hid : id = entry.id
        · subst hid
          simp [Finmap.lookup_insert, rowId, eq_comm]
        · have hid' : id ≠ rowId (entry, vector) := hid
          rw [Finmap.lookup_insert_of_ne _ hid, if_neg hid']

theorem spells_remove {F : Type} {ix : Index F} (h : ix.WellFormed)
    (ids : List String) :
    (ix.remove ids).2.Spells (ix.rows.filter fun r => rowId r ∉ ids) := by
  have hkept : ix.rows.filter (fun r => rowId r ∉ ids) =
      (ix.entries.zipIdx.filter fun p => p.1.id ∉ ids).map fun p =>
        (p.1, row ix.dims ix.vectors p.2) := by
    rw [Index.rows, List.filter_map]
    rfl
  have hentries : (ix.remove ids).2.entries =
      (ix.rows.filter fun r => rowId r ∉ ids).map Prod.fst := by
    rw [hkept, List.map_map]
    rfl
  have hids : (ix.remove ids).2.entries.map Entry.id =
      (ix.rows.filter fun r => rowId r ∉ ids).map rowId := by
    rw [hentries, List.map_map]
    rfl
  have hnodup : ((ix.rows.filter fun r => rowId r ∉ ids).map rowId).Nodup :=
    (List.filter_sublist.map rowId).nodup h.spells.nodup
  refine
    { entries_eq := hentries, vectors_eq := ?_, length_eq := ?_
      nodup := hnodup, byId_iff := ?_ }
  · rw [hkept, List.map_map, ← List.flatMap_def]
    rfl
  · intro r hr
    exact h.spells.length_eq r (List.mem_of_mem_filter hr)
  · rw [← hids]
    exact lookup_positions (hids ▸ hnodup)

theorem wellFormed_new {F : Type} (dims : Nat) :
    (Index.new dims : Index F).WellFormed :=
  (spells_new dims).wellFormed

theorem upsert_of_length_ne {F : Type} {ix : Index F} (entry : Entry)
    {vector : List F} (h : vector.length ≠ ix.dims) :
    ix.upsert entry vector =
      (.error s!"vector has {vector.length} values, the index {ix.dims}", ix) :=
  if_pos h

theorem upsert_fst_of_length_eq {F : Type} {ix : Index F} (entry : Entry)
    {vector : List F} (h : vector.length = ix.dims) :
    (ix.upsert entry vector).1 = .ok () := by
  rw [Index.upsert, if_neg (by simpa using h)]
  split <;> rfl

@[simp] theorem dims_upsert {F : Type} (ix : Index F) (entry : Entry)
    (vector : List F) : (ix.upsert entry vector).2.dims = ix.dims := by
  rw [Index.upsert]
  split
  · rfl
  · split <;> rfl

@[simp] theorem dims_remove {F : Type} (ix : Index F) (ids : List String) :
    (ix.remove ids).2.dims = ix.dims := rfl

theorem wellFormed_upsert {F : Type} {ix : Index F} (h : ix.WellFormed)
    (entry : Entry) (vector : List F) :
    (ix.upsert entry vector).2.WellFormed := by
  by_cases hlength : vector.length = ix.dims
  · exact (spells_upsert h.spells hlength).wellFormed
  · rw [upsert_of_length_ne entry hlength]
    exact h

theorem wellFormed_remove {F : Type} {ix : Index F} (h : ix.WellFormed)
    (ids : List String) : (ix.remove ids).2.WellFormed :=
  (spells_remove h ids).wellFormed

theorem table_upsert {F : Type} {ix : Index F} (h : ix.WellFormed)
    (entry : Entry) {vector : List F} (hlength : vector.length = ix.dims) :
    (wellFormed_upsert h entry vector).table = h.table.put (entry, vector) :=
  Table.ext (spells_upsert h.spells hlength).rows_eq

theorem table_remove {F : Type} {ix : Index F} (h : ix.WellFormed)
    (ids : List String) : (wellFormed_remove h ids).table = h.table.erase ids :=
  Table.ext (spells_remove h ids).rows_eq

theorem find_new {F : Type} (dims : Nat) (id : String) :
    (Index.new dims : Index F).find id = none := rfl

theorem find_upsert {F : Type} {ix : Index F} (h : ix.WellFormed)
    (entry : Entry) {vector : List F} (hlength : vector.length = ix.dims)
    (id : String) :
    (ix.upsert entry vector).2.find id =
      if entry.id = id then some (entry, vector) else ix.find id := by
  have hfind := h.table.find_put (entry, vector) id
  rw [← table_upsert h entry hlength] at hfind
  exact hfind

theorem find_remove {F : Type} {ix : Index F} (h : ix.WellFormed)
    (ids : List String) (id : String) :
    (ix.remove ids).2.find id = if id ∈ ids then none else ix.find id := by
  have hfind := h.table.find_erase ids id
  rw [← table_remove h ids] at hfind
  exact hfind

theorem Index.WellFormed.find_ne_none_iff {F : Type} {ix : Index F}
    (h : ix.WellFormed) (id : String) :
    ix.find id ≠ none ↔ id ∈ ix.entries.map Entry.id := by
  have hnone := h.table.find_eq_none_iff id
  change ix.find id = none ↔ id ∉ ix.rows.map rowId at hnone
  rw [ne_eq, hnone, not_not, map_rowId_rows]

/-- `get` is the entry of the row, so the position it reads is in range. -/
theorem Index.WellFormed.get_eq_find {F : Type} {ix : Index F}
    (h : ix.WellFormed) (id : String) : ix.get id = (ix.find id).map Prod.fst := by
  cases hfind : ix.find id with
  | none =>
      have hid : id ∉ ix.rows.map rowId :=
        (h.table.find_eq_none_iff id).mp hfind
      have hlookup : ix.byId.lookup id = none := by
        cases hl : ix.byId.lookup id with
        | none => rfl
        | some i =>
            exact absurd
              (List.mem_of_getElem? ((h.spells.byId_iff id i).mp hl)) hid
      simp [Index.get, hlookup]
  | some r =>
      obtain ⟨hmem, hid⟩ := (h.table.find_eq_some_iff id r).mp hfind
      obtain ⟨i, hi⟩ := List.getElem?_of_mem (l := ix.rows) hmem
      have hentry : ix.entries[i]? = some r.1 := by
        rw [← map_fst_rows, List.getElem?_map, hi]
        rfl
      have hlookup : ix.byId.lookup id = some i := by
        rw [h.byId_iff, List.getElem?_map, hentry]
        exact congrArg some hid
      simp [Index.get, hlookup, hentry]

theorem Index.WellFormed.row_of_find {F : Type} {ix : Index F}
    (h : ix.WellFormed) {id : String} {i : Nat} {r : Entry × List F}
    (hfind : ix.find id = some r) (hi : ix.byId.lookup id = some i) :
    row ix.dims ix.vectors i = r.2 := by
  obtain ⟨hmem, hid⟩ := (h.table.find_eq_some_iff id r).mp hfind
  obtain ⟨j, hj⟩ := List.getElem?_of_mem (l := ix.rows) hmem
  have hj' : ix.byId.lookup id = some j := by
    rw [h.spells.byId_iff, List.getElem?_map, hj]
    exact congrArg some hid
  obtain rfl : i = j := by simpa [hi] using hj'
  rw [getElem?_rows] at hj
  obtain ⟨e, -, rfl⟩ := Option.map_eq_some_iff.mp hj
  rfl

theorem Index.WellFormed.byId_eq {F : Type} {ix : Index F}
    (h : ix.WellFormed) : ix.byId = positions ix.entries := by
  apply Finmap.ext_lookup
  intro id
  apply Option.ext
  intro i
  rw [h.byId_iff, lookup_positions h.ids_nodup]

theorem eq_of_rows_eq {F : Type} {ix jx : Index F} (hix : ix.WellFormed)
    (hjx : jx.WellFormed) (hdims : ix.dims = jx.dims)
    (hrows : ix.rows = jx.rows) : ix = jx := by
  have hentries : ix.entries = jx.entries := by
    rw [← map_fst_rows, hrows, map_fst_rows]
  have hvectors : ix.vectors = jx.vectors := by
    rw [hix.spells.vectors_eq, hrows, ← hjx.spells.vectors_eq]
  have hbyId : ix.byId = jx.byId := by rw [hix.byId_eq, hentries, ← hjx.byId_eq]
  cases ix
  cases jx
  cases hdims
  cases hentries
  cases hvectors
  cases hbyId
  rfl

theorem remove_fst_eq {F : Type} (ix : Index F) (ids : List String) :
    (ix.remove ids).1 = ix.rows.length - (ix.remove ids).2.rows.length := by
  rw [length_rows, length_rows]
  rfl

theorem remove_of_fst_eq_zero {F : Type} {ix : Index F} (h : ix.WellFormed)
    {ids : List String} (hzero : (ix.remove ids).1 = 0) :
    (ix.remove ids).2 = ix := by
  have hrows : (ix.remove ids).2.rows = ix.rows.filter fun r => rowId r ∉ ids :=
    (spells_remove h ids).rows_eq
  rw [remove_fst_eq, hrows] at hzero
  refine eq_of_rows_eq (wellFormed_remove h ids) h rfl ?_
  rw [hrows]
  exact List.filter_sublist.eq_of_length_le (Nat.le_of_sub_eq_zero hzero)

theorem remove_fst_pos_iff {F : Type} {ix : Index F} (h : ix.WellFormed)
    (ids : List String) :
    0 < (ix.remove ids).1 ↔ ∃ id ∈ ids, ix.find id ≠ none := by
  constructor
  · intro hpos
    by_contra hnone
    have hkept : ∀ r ∈ ix.rows, rowId r ∉ ids := by
      intro r hr hid
      refine hnone ⟨rowId r, hid, ?_⟩
      intro hfind
      exact (h.table.find_eq_none_iff _).mp hfind (List.mem_map_of_mem hr)
    rw [remove_fst_eq, (spells_remove h ids).rows_eq,
      List.filter_eq_self.mpr fun r hr => decide_eq_true (hkept r hr),
      Nat.sub_self] at hpos
    exact Nat.lt_irrefl 0 hpos
  · rintro ⟨id, hid, hfind⟩
    rw [Nat.pos_iff_ne_zero]
    intro hzero
    have hsame := find_remove h ids id
    rw [remove_of_fst_eq_zero h hzero, if_pos hid] at hsame
    exact hfind hsame

end AssistantHub.IndexStore
