import AssistantHub.MediaOutcome

namespace AssistantHub.MediaBatches

open AssistantHub.Chunks
open AssistantHub.Fallible
open AssistantHub.HeaderEncoding
open AssistantHub.IndexStore
open AssistantHub.MediaDocs
open AssistantHub.MediaEffects
open AssistantHub.MediaOutcome
open AssistantHub.MediaSync

/-- The embedder answers with one vector of the right size for each text. -/
def WellSized (io : Io) (dims : Nat) : Prop :=
  ∀ n texts vectors, io.embed n texts = .ok vectors →
    vectors.length = texts.length ∧ ∀ v ∈ vectors, v.length = dims

theorem wellSized_of_uses {dims : Nat} {io : Io} {E : Embedder dims}
    (h : Uses io E) : WellSized io dims := by
  intro n texts vectors hembed
  rw [h n texts vectors hembed]
  refine ⟨List.length_map _, ?_⟩
  intro v hv
  obtain ⟨text, -, rfl⟩ := List.mem_map.mp hv
  exact E.length_vector text

theorem upsertAll_of_sized {pairs : List (Doc × List F32Bytes.F32)}
    {ix : Index F32Bytes.F32} (h : ∀ p ∈ pairs, p.2.length = ix.dims) :
    (upsertAll pairs ix).1 = .ok () := by
  induction pairs generalizing ix with
  | nil => rfl
  | cons p pairs ih =>
      obtain ⟨d, v⟩ := p
      have hfirst : (ix.upsert d.entry v).1 = .ok () :=
        upsert_fst_of_length_eq d.entry (h _ List.mem_cons_self)
      rw [upsertAll, andThen_of_ok hfirst]
      apply ih
      intro q hq
      rw [dims_upsert]
      exact h q (List.mem_cons_of_mem _ hq)

theorem embedBatch_fst_eq_ok_iff {io : Io} {total n : Nat} {batch : List Doc}
    {m : MediaIndex} (hsized : WellSized io m.index.dims) :
    (embedBatch io total n batch m).1 = .ok () ↔
      ∃ vectors, io.embed n (batch.map Doc.text) = .ok vectors := by
  rw [embedBatch]
  cases hembed : io.embed n (batch.map Doc.text) with
  | error err => simp
  | ok vectors =>
      simp only [Except.ok.injEq, exists_eq', iff_true]
      apply upsertAll_of_sized
      rintro ⟨d, v⟩ hp
      exact (hsized n _ vectors hembed).2 v (List.of_mem_zip hp).2

/-- The embedder answers every batch, and all saves work: one after every 512
embedded documents and one at the end. -/
structure Completes (io : Io) (docs : List Doc) : Prop where
  embeds : ∀ n batch, (chunks BATCH docs)[n]? = some batch →
    ∃ vectors, io.embed n (batch.map Doc.text) = .ok vectors
  saves : ∀ k ≤ docs.length / SAVE_EVERY, io.saveFault k = none

theorem forall_getElem?_cons {α : Type*} {p : Nat → α → Prop} (x : α)
    (xs : List α) :
    (∀ i a, (x :: xs)[i]? = some a → p i a) ↔
      p 0 x ∧ ∀ i a, xs[i]? = some a → p (i + 1) a := by
  constructor
  · intro h
    refine ⟨h 0 x rfl, ?_⟩
    intro i a ha
    exact h (i + 1) a ha
  · rintro ⟨hx, hxs⟩ i a ha
    cases i with
    | zero => exact Option.some.inj ha ▸ hx
    | succ i => exact hxs i a ha

theorem forall_le_succ {p : Nat → Prop} (n : Nat) :
    (∀ j ≤ n + 1, p j) ↔ p 0 ∧ ∀ j ≤ n, p (j + 1) := by
  constructor
  · intro h
    refine ⟨h 0 (Nat.zero_le _), ?_⟩
    intro j hj
    exact h (j + 1) (Nat.succ_le_succ hj)
  · rintro ⟨hzero, hsucc⟩ j hj
    cases j with
    | zero => exact hzero
    | succ j => exact hsucc j (Nat.le_of_succ_le_succ hj)

theorem save_fst_eq_ok_iff (json : HeaderJson)
    (fault : Option IndexFiles.SaveFault) (m : MediaIndex) :
    (save json fault m).1 = .ok () ↔ fault = none := by
  cases fault with
  | none => exact iff_of_true rfl rfl
  | some fault => exact iff_of_false nofun nofun

theorem dims_embedBatch (io : Io) (total n : Nat) (batch : List Doc)
    (m : MediaIndex) :
    (embedBatch io total n batch m).2.index.dims = m.index.dims := by
  rw [embedBatch]
  cases io.embed n (batch.map Doc.text) with
  | error err => rfl
  | ok vectors => exact dims_upsertAll _ _

/-- What batches do from number `n` on, with `sinceSave` documents embedded
since the last save. Every batch but the last one is full, so the saves come
after whole batches. -/
theorem embedBatches_fst_eq_ok_iff (json : HeaderJson) {io : Io} (total : Nat)
    (docs : List Doc) (n k sinceSave : Nat) {m : MediaIndex}
    (hsized : WellSized io m.index.dims)
    (hfull : docs = [] ∨ sinceSave % BATCH = 0)
    (hsinceSave : sinceSave < SAVE_EVERY) :
    (embedBatches json io total n k sinceSave (chunks BATCH docs) m).1 =
        .ok () ↔
      (∀ i batch, (chunks BATCH docs)[i]? = some batch →
        ∃ vectors, io.embed (n + i) (batch.map Doc.text) = .ok vectors) ∧
      ∀ j ≤ (sinceSave + docs.length) / SAVE_EVERY,
        io.saveFault (k + j) = none := by
  rcases eq_or_ne docs [] with rfl | hne
  · have hsaves : (sinceSave + ([] : List Doc).length) / SAVE_EVERY = 0 :=
      Nat.div_eq_of_lt hsinceSave
    have hchunks : chunks BATCH ([] : List Doc) = [] := rfl
    rw [hsaves, hchunks, embedBatches, save_fst_eq_ok_iff]
    simp
  · have hmod : sinceSave % 16 = 0 := hfull.resolve_left hne
    have hlt : sinceSave < 512 := hsinceSave
    have hpos : 0 < docs.length := List.length_pos_of_ne_nil hne
    have htake : (docs.take BATCH).length = min 16 docs.length := List.length_take
    have hdrop : (docs.drop BATCH).length = docs.length - 16 := List.length_drop
    have hsized' : WellSized io
        (embedBatch io total n (docs.take BATCH) m).2.index.dims := by
      rw [dims_embedBatch]
      exact hsized
    rw [chunks_eq_cons (by decide) hne, embedBatches, andThen_fst_eq_ok,
      embedBatch_fst_eq_ok_iff hsized, forall_getElem?_cons, Nat.add_zero,
      htake]
    split
    · rename_i hdue
      have hsaves : (sinceSave + docs.length) / SAVE_EVERY =
          (0 + (docs.drop BATCH).length) / SAVE_EVERY + 1 := by
        simp only [SAVE_EVERY] at hdue ⊢
        omega
      have hrest := embedBatches_fst_eq_ok_iff json total
        (docs.drop BATCH) (n + 1) (k + 1) 0
        (m := (save json (io.saveFault k)
          (embedBatch io total n (docs.take BATCH) m).2).2)
        hsized' (Or.inr rfl) (by decide)
      rw [andThen_fst_eq_ok, save_fst_eq_ok_iff, hrest, hsaves, forall_le_succ]
      simp only [Nat.add_zero, Nat.add_assoc, Nat.add_comm 1]
      exact and_assoc.symm.trans and_and_and_comm
    · rename_i hdue
      have hcount : sinceSave + min 16 docs.length + (docs.drop BATCH).length =
          sinceSave + docs.length := by
        omega
      have hrest := embedBatches_fst_eq_ok_iff json total
        (docs.drop BATCH) (n + 1) k (sinceSave + min 16 docs.length) hsized'
        (by
          rw [← List.length_eq_zero_iff, hdrop, BATCH]
          omega)
        (Nat.lt_of_not_ge hdue)
      rw [hrest, hcount]
      simp only [Nat.add_assoc, Nat.add_comm 1]
      exact and_assoc.symm
termination_by docs.length
decreasing_by
  all_goals
    rw [List.length_drop]
    exact Nat.sub_lt (List.length_pos_of_ne_nil hne) (by decide)

theorem embedAndStore_fst_eq_ok_iff {json : HeaderJson} {io : Io}
    {docs : List Doc} {m : MediaIndex} (hsized : WellSized io m.index.dims)
    (hworker : m.worker = true) (hne : docs ≠ []) :
    (embedAndStore json io docs m).1 = .ok () ↔ Completes io docs := by
  rw [embedAndStore, if_neg hne, if_neg (by simp [hworker]),
    embedBatches_fst_eq_ok_iff json docs.length docs 0 0 0 hsized (Or.inr rfl) (by decide)]
  simp only [Nat.zero_add]
  exact ⟨fun h => ⟨h.1, h.2⟩, fun h => ⟨h.embeds, h.saves⟩⟩

/-- The index has a row of one of the documents under the ID. -/
def Replaced (docs : List Doc) (id : String) (m : MediaIndex) : Prop :=
  ∃ d ∈ docs, d.entry.id = id ∧ ∃ v, m.index.find id = some (d.entry, v)

theorem replaced_effect {json : HeaderJson} {io : Io} {docs : List Doc}
    {a b : MediaIndex} (hstep : Effect json io docs a b) (hsound : Sound a)
    {id : String} (ha : Replaced docs id a) : Replaced docs id b := by
  cases hstep with
  | indexing done total => exact ha
  | answered batch => exact ha
  | upsert d v hd _ _ =>
      obtain ⟨d', hd', hid', w, hfind⟩ := ha
      by_cases hlength : v.length = a.index.dims
      · by_cases hid : d.entry.id = id
        · refine ⟨d, hd, hid, v, ?_⟩
          rw [find_upsert hsound.wellFormed d.entry hlength, if_pos hid]
        · refine ⟨d', hd', hid', w, ?_⟩
          rw [find_upsert hsound.wellFormed d.entry hlength, if_neg hid, hfind]
      · refine ⟨d', hd', hid', w, ?_⟩
        rw [upsert_of_length_ne d.entry hlength]
        exact hfind
  | save fault => exact ha

theorem replaced_effects {json : HeaderJson} {io : Io} {docs : List Doc}
    {a b : MediaIndex} (h : Effects json io docs a b) (hsound : Sound a)
    {id : String} (ha : Replaced docs id a) : Replaced docs id b := by
  have hboth : Sound b ∧ Replaced docs id b := by
    induction h with
    | refl => exact ⟨hsound, ha⟩
    | tail _ hstep ih =>
        exact ⟨sound_effect hstep ih.1, replaced_effect hstep ih.1 ih.2⟩
  exact hboth.2

/-- A first batch that the embedder answers replaces the row of its first
document, whatever fails later. -/
theorem replaced_embedAndStore {json : HeaderJson} {io : Io} {d : Doc}
    {docs : List Doc} {m : MediaIndex} (hsound : Sound m)
    (hsized : WellSized io m.cfg.dims) (hworker : m.worker = true)
    {vectors : List (List F32Bytes.F32)}
    (hembed : io.embed 0 (((d :: docs).take BATCH).map Doc.text) =
      .ok vectors) :
    Replaced (d :: docs) d.entry.id
      (embedAndStore json io (d :: docs) m).2 := by
  have hchunks : chunks BATCH (d :: docs) = (d :: docs).take BATCH ::
      chunks BATCH ((d :: docs).drop BATCH) :=
    chunks_eq_cons (by decide) (List.cons_ne_nil d docs)
  have hmem : ∀ batch ∈ (d :: docs).take BATCH ::
      chunks BATCH ((d :: docs).drop BATCH), ∀ e ∈ batch, e ∈ d :: docs := by
    intro batch hbatch e he
    rw [← hchunks] at hbatch
    exact mem_of_mem_chunks hbatch he
  obtain ⟨hcount, hsizes⟩ := hsized _ _ _ hembed
  have htake : (d :: docs).take BATCH = d :: docs.take 15 := rfl
  obtain ⟨v, vs, rfl⟩ : ∃ v vs, vectors = v :: vs := by
    cases vectors with
    | nil => simp [htake] at hcount
    | cons v vs => exact ⟨v, vs, rfl⟩
  have hlength : v.length = m.index.dims := by
    rw [hsizes v List.mem_cons_self, hsound.dims_eq]
  -- The state right after the upsert of the first document.
  let stored : MediaIndex :=
    { m with
      state := .indexing (0 * BATCH) (d :: docs).length
      index := (m.index.upsert d.entry v).2
      embedded := m.embedded ++ ((d :: docs).take BATCH).map Doc.text }
  have hstored : Sound stored :=
    ⟨wellFormed_upsert hsound.wellFormed _ _,
      (dims_upsert _ _ _).trans hsound.dims_eq⟩
  have hreplaced : Replaced (d :: docs) d.entry.id stored := by
    refine ⟨d, List.mem_cons_self, rfl, v, ?_⟩
    exact (find_upsert hsound.wellFormed d.entry hlength _).trans (if_pos rfl)
  have hbatch : (embedBatch io (d :: docs).length 0 ((d :: docs).take BATCH)
      m).2 = { stored with
        index := (upsertAll ((docs.take 15).zip vs) stored.index).2 } := by
    rw [embedBatch, hembed]
    simp only [htake, List.zip_cons_cons]
    rw [upsertAll, andThen_of_ok (upsert_fst_of_length_eq d.entry hlength)]
    rfl
  have hrest : Effects json io (d :: docs) stored
      (embedBatch io (d :: docs).length 0 ((d :: docs).take BATCH) m).2 := by
    rw [hbatch]
    refine effects_batch_upserts (hmem _ List.mem_cons_self) hembed ?_ ?_
    · intro e he
      exact List.mem_append_right _ (List.mem_map_of_mem he)
    · rw [htake, List.zip_cons_cons]
      exact List.subset_cons_self _ _
  have hbatches := effects_embedBatches_cons ((d :: docs).take BATCH)
    (effects_embedBatches json io (d :: docs).length
      fun b hb => hmem b (List.mem_cons_of_mem _ hb)) 0 0 0 m
  rw [embedAndStore, if_neg (List.cons_ne_nil d docs),
    if_neg (by simp [hworker]), hchunks]
  exact replaced_effects (hrest.trans hbatches) hstored hreplaced

theorem exists_replaced_storeChanges (json : HeaderJson) {io : Io}
    {ids : List String} {docs : List Doc} {m : MediaIndex} (hsound : Sound m)
    (hsized : WellSized io m.cfg.dims) (hworker : m.worker = true)
    (hnew : todo m.index ids docs ≠ []) {vectors : List (List F32Bytes.F32)}
    (hembed : io.embed 0 (((todo m.index ids docs).take BATCH).map Doc.text) =
      .ok vectors) :
    ∃ d ∈ todo m.index ids docs, ∃ v,
      (storeChanges json io ids docs m).2.index.find d.entry.id =
        some (d.entry, v) := by
  obtain ⟨d, rest, htodo⟩ := List.exists_cons_of_ne_nil hnew
  rw [storeChanges, htodo]
  rw [htodo] at hembed
  have hreplaced : Replaced (d :: rest) d.entry.id
      (embedAndStore json io (d :: rest)
        { m with index := (m.index.remove ids).2 }).2 :=
    replaced_embedAndStore (sound_remove hsound ids) hsized hworker hembed
  have hkept : Replaced (d :: rest) d.entry.id
      (andThen (embedAndStore json io (d :: rest)
        { m with index := (m.index.remove ids).2 }) fun a =>
          if (m.index.remove ids).1 > 0 ∧ d :: rest = [] then
            save json (io.saveFault 0) a
          else (.ok (), a)).2 := by
    refine andThen_snd hreplaced fun _ => ?_
    split <;> exact hreplaced
  obtain ⟨d', hd', hid', v, hfind⟩ := hkept
  exact ⟨d', hd', v, hid' ▸ hfind⟩

theorem embedAndStore_stopped (json : HeaderJson) {io : Io} {docs : List Doc}
    {m : MediaIndex} (hne : docs ≠ [])
    (h : m.worker = false ∨
      ∃ err, io.embed 0 ((docs.take BATCH).map Doc.text) = .error err) :
    (∃ err, (embedAndStore json io docs m).1 = .error err) ∧
      (embedAndStore json io docs m).2.index = m.index ∧
      (embedAndStore json io docs m).2.dir = m.dir := by
  rw [embedAndStore, if_neg hne]
  split
  · exact ⟨⟨_, rfl⟩, rfl, rfl⟩
  · rename_i hworker
    obtain ⟨err, herr⟩ := h.resolve_left hworker
    have hbatch : ∀ total, embedBatch io total 0 (docs.take BATCH) m =
        (.error err, { m with state := .indexing (0 * BATCH) total }) := by
      intro total
      rw [embedBatch, herr]
    rw [chunks_eq_cons (by decide) hne, embedBatches, andThen_of_error (by rw [hbatch]), hbatch]
    exact ⟨⟨err, rfl⟩, rfl, rfl⟩

end AssistantHub.MediaBatches
