import AssistantHub.IndexFiles

namespace AssistantHub.IndexHistory

open AssistantHub.FlatRows
open AssistantHub.F32Bytes
open AssistantHub.HeaderEncoding
open AssistantHub.IndexFiles
open AssistantHub.IndexStore
open AssistantHub.KeyedTable

/-- `x` is the last element of the log that satisfies `p`. -/
def LastOf {α : Type*} (p : α → Prop) (log : List α) (x : α) : Prop :=
  ∃ before after, log = before ++ x :: after ∧ p x ∧ ∀ y ∈ after, ¬p y

theorem not_lastOf_nil {α : Type*} (p : α → Prop) (x : α) : ¬LastOf p [] x := by
  rintro ⟨before, after, hlog, -⟩
  simp at hlog

theorem lastOf_append_of_pos {α : Type*} {p : α → Prop} {y : α} (hy : p y)
    (log : List α) (x : α) : LastOf p (log ++ [y]) x ↔ x = y := by
  constructor
  · rintro ⟨before, after, hlog, -, hafter⟩
    rcases List.eq_nil_or_concat after with rfl | ⟨rest, z, rfl⟩
    · exact ((List.append_inj' hlog rfl).2 |> List.singleton_inj.mp).symm
    · rw [List.concat_eq_append, ← List.cons_append, ← List.append_assoc] at hlog
      obtain rfl := List.singleton_inj.mp (List.append_inj' hlog rfl).2
      exact absurd hy (hafter y (by simp))
  · rintro rfl
    exact ⟨log, [], rfl, hy, by simp⟩

theorem lastOf_append_of_neg {α : Type*} {p : α → Prop} {y : α} (hy : ¬p y)
    (log : List α) (x : α) : LastOf p (log ++ [y]) x ↔ LastOf p log x := by
  constructor
  · rintro ⟨before, after, hlog, hx, hafter⟩
    rcases List.eq_nil_or_concat after with rfl | ⟨rest, z, rfl⟩
    · obtain rfl := List.singleton_inj.mp (List.append_inj' hlog rfl).2
      exact absurd hx hy
    · rw [List.concat_eq_append, ← List.cons_append, ← List.append_assoc] at hlog
      refine ⟨before, rest, (List.append_inj' hlog rfl).1, hx, ?_⟩
      intro z' hz'
      exact hafter z' (by simp [hz'])
  · rintro ⟨before, after, rfl, hx, hafter⟩
    refine ⟨before, after ++ [y], by simp, hx, ?_⟩
    intro z hz
    rcases List.mem_append.mp hz with hz | hz
    · exact hafter z hz
    · rw [List.mem_singleton.mp hz]
      exact hy

inductive Change where
  | upsert (entry : Entry) (vector : List F32)
  | remove (ids : List String)

/-- The change decides what is stored under `id`: a remove that names it, or
an upsert of it with a vector of the right length. -/
def Change.Decides (dims : Nat) (id : String) : Change → Prop
  | .upsert entry vector => entry.id = id ∧ vector.length = dims
  | .remove ids => id ∈ ids

/-- The indexes that `upsert`, `remove` and `load` reach from `Index::new`,
with the changes behind them. An index that `load` finds has the changes of
the index that was saved, in this run or in another one. -/
inductive Reached (json : HeaderJson) :
    Nat → Index F32 → List Change → Prop where
  | new (dims : Nat) : Reached json dims (Index.new dims) []
  | upsert {dims : Nat} {ix : Index F32} {log : List Change} (entry : Entry)
      (vector : List F32) :
      Reached json dims ix log →
      Reached json dims (ix.upsert entry vector).2
        (log ++ [.upsert entry vector])
  | remove {dims : Nat} {ix : Index F32} {log : List Change}
      (ids : List String) :
      Reached json dims ix log →
      Reached json dims (ix.remove ids).2 (log ++ [.remove ids])
  | load {dims dims' : Nat} {saved loaded : Index F32} {log : List Change}
      {fingerprint fingerprint' : String} {dir : Dir} :
      Reached json dims' saved log →
      Index.load json (Index.save json saved fingerprint none dir).2
        fingerprint' dims = some loaded →
      Reached json dims loaded log

theorem load_save_eq_some {json : HeaderJson} {saved loaded : Index F32}
    (hsaved : saved.WellFormed) {fingerprint fingerprint' : String} {dims : Nat}
    {dir : Dir}
    (h : Index.load json (Index.save json saved fingerprint none dir).2
      fingerprint' dims = some loaded) : loaded = saved ∧ saved.dims = dims := by
  by_cases hother : fingerprint ≠ fingerprint' ∨ saved.dims ≠ dims
  · have hfiles := indexFiles_save_none json saved fingerprint dir
    rw [load_of_other hfiles hother] at h
    cases h
  · simp only [not_or, not_not] at hother
    obtain ⟨rfl, rfl⟩ := hother
    rw [load_save hsaved] at h
    exact ⟨(Option.some.inj h).symm, rfl⟩

theorem Reached.wellFormed {json : HeaderJson} {dims : Nat} {ix : Index F32}
    {log : List Change} (h : Reached json dims ix log) :
    ix.WellFormed ∧ ix.dims = dims := by
  induction h with
  | new dims => exact ⟨wellFormed_new dims, rfl⟩
  | upsert entry vector _ ih =>
      exact ⟨wellFormed_upsert ih.1 entry vector, by rw [dims_upsert, ih.2]⟩
  | remove ids _ ih => exact ⟨wellFormed_remove ih.1 ids, by rw [dims_remove, ih.2]⟩
  | load _ hload ih =>
      obtain ⟨rfl, hdims⟩ := load_save_eq_some ih.1 hload
      exact ⟨ih.1, hdims⟩

/-- The index stores under an ID what the last deciding change put there. -/
theorem Reached.find_iff {json : HeaderJson} {dims : Nat} {ix : Index F32}
    {log : List Change} (h : Reached json dims ix log) (id : String)
    (e : Entry) (v : List F32) :
    ix.find id = some (e, v) ↔
      LastOf (Change.Decides dims id) log (.upsert e v) := by
  induction h with
  | new dims => simp [find_new, not_lastOf_nil]
  | @upsert dims ix log entry vector hreached ih =>
      obtain ⟨hwell, hdims⟩ := hreached.wellFormed
      by_cases hlength : vector.length = dims
      · rw [find_upsert hwell entry (hlength.trans hdims.symm)]
        by_cases hid : entry.id = id
        · rw [if_pos hid, lastOf_append_of_pos ⟨hid, hlength⟩]
          simp [eq_comm]
        · rw [if_neg hid, lastOf_append_of_neg fun hd => hid hd.1, ih]
      · rw [upsert_of_length_ne entry (by rw [hdims]; exact hlength),
          lastOf_append_of_neg fun hd => hlength hd.2, ih]
  | @remove dims ix log ids hreached ih =>
      rw [find_remove hreached.wellFormed.1]
      have hdecides : Change.Decides dims id (.remove ids) ↔ id ∈ ids := Iff.rfl
      by_cases hid : id ∈ ids
      · rw [if_pos hid, lastOf_append_of_pos (hdecides.mpr hid)]
        simp
      · rw [if_neg hid, lastOf_append_of_neg fun hd => hid (hdecides.mp hd), ih]
  | load hreached hload ih =>
      obtain ⟨rfl, rfl⟩ := load_save_eq_some hreached.wellFormed.1 hload
      rw [← hreached.wellFormed.2] at ih
      exact ih

theorem remove_fst {F : Type} {ix : Index F} (h : ix.WellFormed)
    (ids : List String) :
    (ix.remove ids).1 =
      (ids.dedup.filter fun id => (ix.get id).isSome).length := by
  have hcount : (ix.remove ids).1 =
      h.table.rows.length - (h.table.erase ids).rows.length := by
    rw [← table_remove h ids]
    exact remove_fst_eq ix ids
  rw [hcount, h.table.length_erase]
  congr 2
  funext id
  rw [h.get_eq_find, Option.isSome_map]
  rfl

/-- The index is the finite map that its changes describe. -/
structure IsMapOf (dims : Nat) (log : List Change) (ix : Index F32) : Prop where
  wellFormed : ix.WellFormed
  dims_eq : ix.dims = dims
  get_iff : ∀ id e, ix.get id = some e ↔
    ∃ v, LastOf (Change.Decides dims id) log (.upsert e v)
  row_at : ∀ id e v, LastOf (Change.Decides dims id) log (.upsert e v) →
    ∃ i, ix.byId.lookup id = some i ∧ ix.entries[i]? = some e ∧
      row dims ix.vectors i = v
  remove_count : ∀ ids, (ix.remove ids).1 =
    (ids.dedup.filter fun id => (ix.get id).isSome).length
  remove_frame : ∀ ids id, id ∉ ids → (ix.remove ids).2.find id = ix.find id
  upsert_ok : ∀ e v, v.length = dims → (ix.upsert e v).1 = .ok ()
  upsert_frame : ∀ e v id, id ≠ e.id → (ix.upsert e v).2.find id = ix.find id
  upsert_error : ∀ e v, v.length ≠ dims →
    ix.upsert e v = (.error s!"vector has {v.length} values, the index {dims}", ix)

theorem isMapOf_of_reached {json : HeaderJson} {dims : Nat} {ix : Index F32}
    {log : List Change} (h : Reached json dims ix log) :
    IsMapOf dims log ix := by
  obtain ⟨hwell, rfl⟩ := h.wellFormed
  have hfind := h.find_iff
  refine
    { wellFormed := hwell, dims_eq := rfl, get_iff := ?_, row_at := ?_
      remove_count := remove_fst hwell, remove_frame := ?_
      upsert_ok := fun e _ hv => upsert_fst_of_length_eq e hv
      upsert_frame := ?_
      upsert_error := fun e _ hv => upsert_of_length_ne e hv }
  · intro id e
    rw [hwell.get_eq_find, Option.map_eq_some_iff]
    constructor
    · rintro ⟨⟨e', v⟩, hsome, rfl⟩
      exact ⟨v, (hfind id e' v).mp hsome⟩
    · rintro ⟨v, hlast⟩
      exact ⟨(e, v), (hfind id e v).mpr hlast, rfl⟩
  · intro id e v hlast
    have hsome := (hfind id e v).mpr hlast
    have hget : ix.get id = some e := by
      rw [hwell.get_eq_find, hsome]
      rfl
    obtain ⟨i, hi, hentry⟩ := Option.bind_eq_some_iff.mp hget
    exact ⟨i, hi, hentry, hwell.row_of_find hsome hi⟩
  · intro ids id hid
    rw [find_remove hwell, if_neg hid]
  · intro e v id hid
    by_cases hv : v.length = ix.dims
    · rw [find_upsert hwell e hv, if_neg fun h => hid h.symm]
    · rw [upsert_of_length_ne e hv]

/-- An upsert, a save and a load, a replacement and a remove of an unknown
ID that is listed twice. -/
theorem isMapOf_of_reached_replaced :
    IsMapOf 1
      [.upsert ⟨"a", .movie, "Dune", none, none, 1⟩ [⟨0x3f800000⟩],
        .upsert ⟨"a", .movie, "Dune", none, none, 2⟩ [⟨0x40000000⟩],
        .remove ["x", "x"]]
      ((((Index.new 1).upsert ⟨"a", .movie, "Dune", none, none, 1⟩
        [⟨0x3f800000⟩]).2.upsert ⟨"a", .movie, "Dune", none, none, 2⟩
        [⟨0x40000000⟩]).2.remove ["x", "x"]).2 := by
  have hone : Reached compactJson 1 _ _ :=
    .upsert ⟨"a", .movie, "Dune", none, none, 1⟩ [⟨0x3f800000⟩] (.new 1)
  have hload := Reached.load hone (load_save hone.wellFormed.1 "m" fun _ => none)
  have htwo := (hload.upsert ⟨"a", .movie, "Dune", none, none, 2⟩
    [⟨0x40000000⟩]).remove ["x", "x"]
  exact isMapOf_of_reached htwo

end AssistantHub.IndexHistory
