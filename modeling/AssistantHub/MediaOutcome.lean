import AssistantHub.MediaEffects

namespace AssistantHub.MediaOutcome

open AssistantHub.Chunks
open AssistantHub.F32Bytes
open AssistantHub.Fallible
open AssistantHub.HeaderEncoding
open AssistantHub.IndexFiles
open AssistantHub.IndexStore
open AssistantHub.JellyfinItems
open AssistantHub.KeyedTable
open AssistantHub.MediaDocs
open AssistantHub.MediaEffects
open AssistantHub.MediaSync

/-- An embedding model: a vector of the right size for every text. -/
structure Embedder (dims : Nat) where
  vector : String → List F32
  length_vector : ∀ text, (vector text).length = dims

/-- Every embedder call of `io` answers with the vectors of `E`, or fails. -/
def Uses {dims : Nat} (io : Io) (E : Embedder dims) : Prop :=
  ∀ n texts vectors, io.embed n texts = .ok vectors →
    vectors = texts.map E.vector

/-- The index of the state is a map of the configured vector size. -/
structure Sound (m : MediaIndex) : Prop where
  wellFormed : m.index.WellFormed
  dims_eq : m.index.dims = m.cfg.dims

def frame (m : MediaIndex) : MediaConfig × Bool := (m.cfg, m.worker)

theorem sound_remove {m : MediaIndex} (h : Sound m) (ids : List String) :
    Sound { m with index := (m.index.remove ids).2 } :=
  { wellFormed := wellFormed_remove h.wellFormed ids
    dims_eq := h.dims_eq }

theorem sound_effect {json : HeaderJson} {io : Io} {todo : List Doc}
    {a b : MediaIndex} (h : Effect json io todo a b) (ha : Sound a) : Sound b := by
  cases h with
  | indexing done total => exact ⟨ha.wellFormed, ha.dims_eq⟩
  | answered batch => exact ⟨ha.wellFormed, ha.dims_eq⟩
  | upsert d v _ _ _ =>
      refine ⟨wellFormed_upsert ha.wellFormed _ _, ?_⟩
      exact (dims_upsert _ _ _).trans ha.dims_eq
  | save fault => exact ⟨ha.wellFormed, ha.dims_eq⟩

theorem frame_effect {json : HeaderJson} {io : Io} {todo : List Doc}
    {a b : MediaIndex} (h : Effect json io todo a b) : frame b = frame a := by
  cases h <;> rfl

theorem sound_storeChanges {m : MediaIndex} (h : Sound m) (json : HeaderJson)
    (io : Io) (ids : List String) (docs : List Doc) :
    Sound (storeChanges json io ids docs m).2 :=
  storeChanges_induct json io ids docs (sound_remove h ids)
    fun _ _ hstep ha => sound_effect hstep ha

theorem frame_storeChanges (json : HeaderJson) (io : Io) (ids : List String)
    (docs : List Doc) (m : MediaIndex) :
    frame (storeChanges json io ids docs m).2 = frame m :=
  storeChanges_induct json io ids docs (p := fun a => frame a = frame m) rfl
    fun _ _ hstep ha => (frame_effect hstep).trans ha

theorem sound_fullSync {m : MediaIndex} (h : Sound m) (json : HeaderJson)
    (io : Io) (works episodes : List Answer) :
    Sound (fullSync json io works episodes m).2 :=
  fullSync_induct h (fun _ _ => sound_storeChanges h _ _ _ _) fun _ ha =>
    ⟨ha.wellFormed, ha.dims_eq⟩

theorem frame_fullSync (json : HeaderJson) (io : Io)
    (works episodes : List Answer) (m : MediaIndex) :
    frame (fullSync json io works episodes m).2 = frame m :=
  fullSync_induct (p := fun a => frame a = frame m) rfl
    (fun _ _ => frame_storeChanges _ _ _ _ _) fun _ ha => ha

theorem sound_apply {m : MediaIndex} (h : Sound m) (json : HeaderJson)
    (io : Io) (answers : List Answer) (changes : Changes) :
    Sound (apply json io answers changes m).2 :=
  apply_induct h fun _ _ => sound_storeChanges h _ _ _ _

theorem frame_apply (json : HeaderJson) (io : Io) (answers : List Answer)
    (changes : Changes) (m : MediaIndex) :
    frame (apply json io answers changes m).2 = frame m :=
  apply_induct (p := fun a => frame a = frame m) rfl fun _ _ =>
    frame_storeChanges _ _ _ _ _

def docRow {dims : Nat} (E : Embedder dims) (d : Doc) : Entry × List F32 :=
  (d.entry, E.vector d.text)

def pairs {dims : Nat} (E : Embedder dims) (docs : List Doc) :
    List (Doc × List F32) :=
  docs.map fun d => (d, E.vector d.text)

theorem pairs_append {dims : Nat} (E : Embedder dims) (ds ds' : List Doc) :
    pairs E (ds ++ ds') = pairs E ds ++ pairs E ds' :=
  List.map_append

theorem table_upsertAll {dims : Nat} (E : Embedder dims) (docs : List Doc)
    {ix : Index F32} (h : ix.WellFormed) (hdims : ix.dims = dims) :
    (upsertAll (pairs E docs) ix).1 = .ok () ∧
      ∃ h' : (upsertAll (pairs E docs) ix).2.WellFormed,
        h'.table = h.table.putAll (docs.map (docRow E)) := by
  induction docs generalizing ix with
  | nil => exact ⟨rfl, h, rfl⟩
  | cons d docs ih =>
      have hlength : (E.vector d.text).length = ix.dims := by
        rw [E.length_vector, hdims]
      have hok := upsert_fst_of_length_eq d.entry hlength
      have hfirst := wellFormed_upsert h d.entry (E.vector d.text)
      have hrest := ih hfirst ((dims_upsert _ _ _).trans hdims)
      have hstep : upsertAll (pairs E (d :: docs)) ix =
          upsertAll (pairs E docs)
            (ix.upsert d.entry (E.vector d.text)).2 :=
        andThen_of_ok hok _
      rw [hstep]
      obtain ⟨hok', h', htable⟩ := hrest
      refine ⟨hok', h', ?_⟩
      rw [htable, table_upsert h d.entry hlength]
      rfl

/-- What upserting documents leaves under an ID: nothing new without a
document of it, and the row of one of its documents otherwise. -/
theorem find_upsertAll {dims : Nat} (E : Embedder dims) (docs : List Doc)
    {ix : Index F32} (h : ix.WellFormed) (hdims : ix.dims = dims) (id : String) :
    (id ∉ docs.map (fun d => d.entry.id) →
      (upsertAll (pairs E docs) ix).2.find id = ix.find id) ∧
    (id ∈ docs.map (fun d => d.entry.id) →
      ∃ d ∈ docs, d.entry.id = id ∧
        (upsertAll (pairs E docs) ix).2.find id = some (docRow E d)) := by
  obtain ⟨-, h', htable⟩ := table_upsertAll E docs h hdims
  have hkeys : (docs.map (docRow E)).map rowId =
      docs.map fun d => d.entry.id := by
    rw [List.map_map]
    rfl
  have hfind : (upsertAll (pairs E docs) ix).2.find id =
      (h.table.putAll (docs.map (docRow E))).find id := by
    rw [← htable]
    rfl
  constructor
  · intro hid
    rw [hfind, Table.find_putAll_of_not_mem _ _ _ (by rw [hkeys]; exact hid)]
    rfl
  · intro hid
    obtain ⟨r, hr, hrid, hrow⟩ := h.table.find_putAll_of_mem
      (docs.map (docRow E)) id (by rw [hkeys]; exact hid)
    obtain ⟨d, hd, rfl⟩ := List.mem_map.mp hr
    exact ⟨d, hd, hrid, hfind.trans hrow⟩

theorem dims_upsertAll (ps : List (Doc × List F32)) (ix : Index F32) :
    (upsertAll ps ix).2.dims = ix.dims := by
  induction ps generalizing ix with
  | nil => rfl
  | cons p ps ih =>
      have hfirst : (ix.upsert p.1.entry p.2).2.dims = ix.dims :=
        dims_upsert _ _ _
      exact andThen_snd (p := fun jx : Index F32 => jx.dims = ix.dims) hfirst
        fun _ => (ih _).trans hfirst

theorem upsertAll_append {ps qs : List (Doc × List F32)} {ix : Index F32}
    (hok : (upsertAll ps ix).1 = .ok ()) :
    upsertAll (ps ++ qs) ix = upsertAll qs (upsertAll ps ix).2 := by
  induction ps generalizing ix with
  | nil => rfl
  | cons p ps ih =>
      obtain ⟨hfirst, hrest⟩ := (andThen_fst_eq_ok _ _).mp hok
      have hstep : ∀ rest, upsertAll (p :: rest) ix =
          upsertAll rest (ix.upsert p.1.entry p.2).2 :=
        fun _ => andThen_of_ok hfirst _
      rw [List.cons_append, hstep, hstep, ih hrest]

theorem save_of_ok {json : HeaderJson} {fault : Option SaveFault}
    {m : MediaIndex} (hok : (save json fault m).1 = .ok ()) :
    indexFiles (save json fault m).2.dir =
        savedFiles json m.index m.cfg.fingerprint ∧
      (save json fault m).2.saves = m.saves + 1 := by
  cases fault with
  | some fault => cases hok
  | none => exact ⟨indexFiles_save_none _ _ _ _, rfl⟩

/-- The files of the directory are those of a finished save of the index. -/
structure Flushed (json : HeaderJson) (m : MediaIndex) : Prop where
  files_eq : indexFiles m.dir = savedFiles json m.index m.cfg.fingerprint
  saves_pos : 0 < m.saves

theorem flushed_save {json : HeaderJson} {fault : Option SaveFault}
    {m : MediaIndex} (hok : (save json fault m).1 = .ok ()) :
    Flushed json (save json fault m).2 := by
  obtain ⟨hfiles, hsaves⟩ := save_of_ok hok
  exact ⟨hfiles, by rw [hsaves]; exact Nat.succ_pos _⟩

theorem flushed_embedBatches {json : HeaderJson} {io : Io} {total : Nat}
    {batches : List (List Doc)} {n k sinceSave : Nat} {m : MediaIndex}
    (hok : (embedBatches json io total n k sinceSave batches m).1 = .ok ()) :
    Flushed json (embedBatches json io total n k sinceSave batches m).2 := by
  induction batches generalizing n k sinceSave m with
  | nil => exact flushed_save hok
  | cons batch batches ih =>
      rw [embedBatches] at hok ⊢
      obtain ⟨hbatch, hrest⟩ := (andThen_fst_eq_ok _ _).mp hok
      rw [andThen_of_ok hbatch]
      split at hrest
      · rename_i hdue
        obtain ⟨hsave, hrest⟩ := (andThen_fst_eq_ok _ _).mp hrest
        rw [if_pos hdue, andThen_of_ok hsave]
        exact ih hrest
      · rename_i hdue
        rw [if_neg hdue]
        exact ih hrest

theorem flushed_storeChanges {json : HeaderJson} {io : Io} {ids : List String}
    {docs : List Doc} {m : MediaIndex}
    (hok : (storeChanges json io ids docs m).1 = .ok ())
    (hwork : 0 < (m.index.remove ids).1 ∨ todo m.index ids docs ≠ []) :
    Flushed json (storeChanges json io ids docs m).2 := by
  rw [storeChanges] at hok ⊢
  obtain ⟨hembed, hsave⟩ := (andThen_fst_eq_ok _ _).mp hok
  rw [andThen_of_ok hembed]
  by_cases htodo : todo m.index ids docs = []
  · have hremoved : (m.index.remove ids).1 > 0 :=
      hwork.resolve_right fun h => h htodo
    rw [if_pos ⟨hremoved, htodo⟩] at hsave ⊢
    exact flushed_save hsave
  · rw [if_neg fun h => htodo h.2]
    rw [embedAndStore, if_neg htodo] at hembed ⊢
    split at hembed
    · cases hembed
    · rename_i hworker
      rw [if_neg hworker]
      exact flushed_embedBatches hembed

theorem storeChanges_of_no_work {json : HeaderJson} {io : Io}
    {ids : List String} {docs : List Doc} {m : MediaIndex}
    (hm : m.index.WellFormed) (hremoved : (m.index.remove ids).1 = 0)
    (htodo : todo m.index ids docs = []) :
    storeChanges json io ids docs m = (.ok (), m) := by
  have hzero : ¬((m.index.remove ids).1 > 0 ∧ todo m.index ids docs = []) :=
    fun h => Nat.ne_of_gt h.1 hremoved
  rw [storeChanges, embedAndStore, if_pos htodo, andThen_of_ok rfl,
    if_neg hzero, remove_of_fst_eq_zero hm hremoved]

theorem embedBatch_of_ok {dims : Nat} {E : Embedder dims} {io : Io}
    (huses : Uses io E) {total n : Nat} {batch : List Doc} {m : MediaIndex}
    (hok : (embedBatch io total n batch m).1 = .ok ()) :
    embedBatch io total n batch m =
      (.ok (), { m with
        state := .indexing (n * BATCH) total
        index := (upsertAll (pairs E batch) m.index).2
        embedded := m.embedded ++ batch.map Doc.text }) := by
  rw [embedBatch] at hok ⊢
  cases hembed : io.embed n (batch.map Doc.text) with
  | error err =>
      rw [hembed] at hok
      cases hok
  | ok vectors =>
      rw [hembed] at hok
      have hzip : batch.zip vectors = pairs E batch := by
        rw [huses _ _ _ hembed, List.map_map, pairs, List.map_prod_left_eq_zip]
        rfl
      simp only [hzip] at hok ⊢
      rw [hok]

theorem embedBatches_of_ok {dims : Nat} {E : Embedder dims} {json : HeaderJson}
    {io : Io} (huses : Uses io E) {total : Nat} {batches : List (List Doc)}
    {n k sinceSave : Nat} {m : MediaIndex} (hwell : m.index.WellFormed)
    (hdims : m.index.dims = dims)
    (hok : (embedBatches json io total n k sinceSave batches m).1 = .ok ()) :
    (embedBatches json io total n k sinceSave batches m).2.index =
        (upsertAll (pairs E batches.flatten) m.index).2 ∧
      (embedBatches json io total n k sinceSave batches m).2.embedded =
        m.embedded ++ batches.flatten.map Doc.text := by
  induction batches generalizing n k sinceSave m with
  | nil =>
      rw [List.flatten_nil, List.map_nil, List.append_nil]
      exact ⟨rfl, rfl⟩
  | cons batch batches ih =>
      rw [embedBatches] at hok ⊢
      obtain ⟨hbatch, hrest⟩ := (andThen_fst_eq_ok _ _).mp hok
      obtain ⟨hupsert, h', -⟩ :=
        table_upsertAll E batch hwell hdims
      have happend : (upsertAll (pairs E (batch ++ batches.flatten)) m.index).2 =
          (upsertAll (pairs E batches.flatten)
            (upsertAll (pairs E batch) m.index).2).2 := by
        rw [pairs_append, upsertAll_append hupsert]
      rw [andThen_of_ok hbatch, embedBatch_of_ok huses hbatch,
        List.flatten_cons, happend, List.map_append, ← List.append_assoc]
      rw [embedBatch_of_ok huses hbatch] at hrest
      have hdims' := (dims_upsertAll (pairs E batch) m.index).trans hdims
      split at hrest
      · rename_i hdue
        obtain ⟨hsave, hrest⟩ := (andThen_fst_eq_ok _ _).mp hrest
        rw [if_pos hdue, andThen_of_ok hsave]
        exact ih h' hdims' hrest
      · rename_i hdue
        rw [if_neg hdue]
        exact ih h' hdims' hrest

theorem storeChanges_of_ok {dims : Nat} {E : Embedder dims} {json : HeaderJson}
    {io : Io} (huses : Uses io E) {ids : List String} {docs : List Doc}
    {m : MediaIndex} (hwell : m.index.WellFormed) (hdims : m.index.dims = dims)
    (hok : (storeChanges json io ids docs m).1 = .ok ()) :
    (storeChanges json io ids docs m).2.index =
        (upsertAll (pairs E (todo m.index ids docs)) (m.index.remove ids).2).2 ∧
      (storeChanges json io ids docs m).2.embedded =
        m.embedded ++ (todo m.index ids docs).map Doc.text := by
  rw [storeChanges] at hok ⊢
  obtain ⟨hembed, -⟩ := (andThen_fst_eq_ok _ _).mp hok
  rw [andThen_of_ok hembed]
  have hstored : (embedAndStore json io (todo m.index ids docs)
        { m with index := (m.index.remove ids).2 }).2.index =
        (upsertAll (pairs E (todo m.index ids docs)) (m.index.remove ids).2).2 ∧
      (embedAndStore json io (todo m.index ids docs)
        { m with index := (m.index.remove ids).2 }).2.embedded =
        m.embedded ++ (todo m.index ids docs).map Doc.text := by
    rw [embedAndStore] at hembed ⊢
    split
    · rename_i hnil
      rw [hnil, List.map_nil, List.append_nil]
      exact ⟨rfl, rfl⟩
    · rename_i hnil
      rw [if_neg hnil] at hembed
      split at hembed
      · cases hembed
      · rename_i hworker
        rw [if_neg hworker]
        have hbatches := embedBatches_of_ok
          (m := { m with index := (m.index.remove ids).2 }) huses
          (wellFormed_remove hwell ids) hdims hembed
        rw [flatten_chunks] at hbatches
        exact hbatches
  split
  · exact hstored
  · exact hstored

theorem needsEmbedding_eq_false_iff {ix : Index F32} (h : ix.WellFormed)
    (d : Doc) :
    needsEmbedding ix d = false ↔
      ∃ r, ix.find d.entry.id = some r ∧ r.1.hash = d.entry.hash := by
  rw [needsEmbedding, h.get_eq_find, Option.map_map]
  simp [Option.map_eq_some_iff]

theorem find_storeChanges {dims : Nat} {E : Embedder dims} {json : HeaderJson}
    {io : Io} (huses : Uses io E) {ids : List String} {docs : List Doc}
    {m : MediaIndex} (hwell : m.index.WellFormed) (hdims : m.index.dims = dims)
    (hok : (storeChanges json io ids docs m).1 = .ok ()) (id : String) :
    (∃ d ∈ docs, d.entry.id = id ∧
        needsEmbedding (m.index.remove ids).2 d = true ∧
        (storeChanges json io ids docs m).2.index.find id =
          some (docRow E d)) ∨
      ((∀ d ∈ docs, d.entry.id = id →
          needsEmbedding (m.index.remove ids).2 d = false) ∧
        (storeChanges json io ids docs m).2.index.find id =
          if id ∈ ids then none else m.index.find id) := by
  obtain ⟨hindex, -⟩ := storeChanges_of_ok huses hwell hdims hok
  obtain ⟨hnot, hmem⟩ := find_upsertAll E (todo m.index ids docs)
    (wellFormed_remove hwell ids) hdims id
  rw [hindex]
  by_cases hid : id ∈ (todo m.index ids docs).map fun d => d.entry.id
  · obtain ⟨d, hd, hdid, hfind⟩ := hmem hid
    obtain ⟨hdocs, hneeds⟩ := List.mem_filter.mp hd
    exact Or.inl ⟨d, hdocs, hdid, hneeds, hfind⟩
  · refine Or.inr ⟨?_, ?_⟩
    · intro d hd hdid
      rw [← Bool.not_eq_true]
      intro hneeds
      exact hid (List.mem_map.mpr ⟨d, List.mem_filter.mpr ⟨hd, hneeds⟩, hdid⟩)
    · rw [hnot hid, find_remove hwell]

theorem find_ne_none_effect {json : HeaderJson} {io : Io} {todo : List Doc}
    {a b : MediaIndex} (hstep : Effect json io todo a b) (hsound : Sound a)
    {id : String} (ha : a.index.find id ≠ none) : b.index.find id ≠ none := by
  cases hstep with
  | indexing done total => exact ha
  | answered batch => exact ha
  | upsert d v _ _ _ =>
      by_cases hlength : v.length = a.index.dims
      · rw [find_upsert hsound.wellFormed d.entry hlength]
        split
        · simp
        · exact ha
      · rw [upsert_of_length_ne d.entry hlength]
        exact ha
  | save fault => exact ha

theorem find_eq_none_effect {json : HeaderJson} {io : Io} {todo : List Doc}
    {a b : MediaIndex} (hstep : Effect json io todo a b) (hsound : Sound a)
    {id : String} (hid : id ∉ todo.map fun d => d.entry.id)
    (ha : a.index.find id = none) : b.index.find id = none := by
  cases hstep with
  | indexing done total => exact ha
  | answered batch => exact ha
  | upsert d v hd _ _ =>
      by_cases hlength : v.length = a.index.dims
      · rw [find_upsert hsound.wellFormed d.entry hlength, if_neg ?_]
        · exact ha
        · rintro rfl
          exact hid (List.mem_map_of_mem hd)
      · rw [upsert_of_length_ne d.entry hlength]
        exact ha
  | save fault => exact ha

/-- Whatever fails, an entry that is not removed stays. -/
theorem find_ne_none_storeChanges {m : MediaIndex} (hsound : Sound m)
    (json : HeaderJson) (io : Io) {ids : List String} (docs : List Doc)
    {id : String} (hid : id ∉ ids) (hfind : m.index.find id ≠ none) :
    (storeChanges json io ids docs m).2.index.find id ≠ none := by
  have hboth := storeChanges_induct json io ids docs
    (p := fun a => Sound a ∧ a.index.find id ≠ none)
    ⟨sound_remove hsound ids, by
      rw [find_remove hsound.wellFormed, if_neg hid]
      exact hfind⟩
    fun a b hstep ha =>
      ⟨sound_effect hstep ha.1, find_ne_none_effect hstep ha.1 ha.2⟩
  exact hboth.2

/-- Whatever fails, an ID that is removed and has no document is gone. -/
theorem find_eq_none_storeChanges {m : MediaIndex} (hsound : Sound m)
    (json : HeaderJson) (io : Io) {ids : List String} {docs : List Doc}
    {id : String} (hid : id ∈ ids) (hdocs : id ∉ docs.map fun d => d.entry.id) :
    (storeChanges json io ids docs m).2.index.find id = none := by
  have htodo : id ∉ (todo m.index ids docs).map fun d => d.entry.id := by
    intro h
    obtain ⟨d, hd, rfl⟩ := List.mem_map.mp h
    exact hdocs (List.mem_map_of_mem (List.mem_of_mem_filter hd))
  have hboth := storeChanges_induct json io ids docs
    (p := fun a => Sound a ∧ a.index.find id = none)
    ⟨sound_remove hsound ids, by rw [find_remove hsound.wellFormed, if_pos hid]⟩
    fun a b hstep ha =>
      ⟨sound_effect hstep ha.1, find_eq_none_effect hstep ha.1 htodo ha.2⟩
  exact hboth.2

structure Works {dims : Nat} (io : Io) (E : Embedder dims) : Prop where
  embed_eq : ∀ n texts, io.embed n texts = .ok (texts.map E.vector)
  saveFault_eq : ∀ k, io.saveFault k = none

theorem Works.uses {dims : Nat} {io : Io} {E : Embedder dims}
    (h : Works io E) : Uses io E := by
  intro n texts vectors hembed
  rw [h.embed_eq] at hembed
  exact (Except.ok.inj hembed).symm

theorem save_of_none (json : HeaderJson) (m : MediaIndex) :
    (save json none m).1 = .ok () := rfl

theorem embedBatch_of_works {dims : Nat} {io : Io} {E : Embedder dims}
    (hworks : Works io E) (total n : Nat) (batch : List Doc) {m : MediaIndex}
    (hwell : m.index.WellFormed) (hdims : m.index.dims = dims) :
    (embedBatch io total n batch m).1 = .ok () := by
  obtain ⟨hok, -⟩ := table_upsertAll E batch hwell hdims
  have hzip : batch.zip ((batch.map Doc.text).map E.vector) = pairs E batch := by
    rw [List.map_map, pairs, List.map_prod_left_eq_zip]
    rfl
  rw [embedBatch, hworks.embed_eq]
  simp only [hzip]
  exact hok

theorem embedBatches_of_works {dims : Nat} {json : HeaderJson} {io : Io}
    {E : Embedder dims} (hworks : Works io E) (total : Nat)
    (batches : List (List Doc)) (n k sinceSave : Nat) {m : MediaIndex}
    (hwell : m.index.WellFormed) (hdims : m.index.dims = dims) :
    (embedBatches json io total n k sinceSave batches m).1 = .ok () := by
  induction batches generalizing n k sinceSave m with
  | nil => rw [embedBatches, hworks.saveFault_eq, save_of_none]
  | cons batch batches ih =>
      have hbatch := embedBatch_of_works hworks total n batch hwell hdims
      obtain ⟨-, h', -⟩ := table_upsertAll E batch hwell hdims
      have hdims' := (dims_upsertAll (pairs E batch) m.index).trans hdims
      rw [embedBatches, andThen_of_ok hbatch,
        embedBatch_of_ok hworks.uses hbatch]
      split
      · rw [hworks.saveFault_eq, andThen_of_ok (save_of_none _ _)]
        exact ih _ _ _ h' hdims'
      · exact ih _ _ _ h' hdims'

theorem storeChanges_of_works {dims : Nat} {json : HeaderJson} {io : Io}
    {E : Embedder dims} (hworks : Works io E) (ids : List String)
    (docs : List Doc) {m : MediaIndex} (hworker : m.worker = true)
    (hwell : m.index.WellFormed) (hdims : m.index.dims = dims) :
    (storeChanges json io ids docs m).1 = .ok () := by
  have hembed : (embedAndStore json io (todo m.index ids docs)
      { m with index := (m.index.remove ids).2 }).1 = .ok () := by
    rw [embedAndStore]
    split
    · rfl
    · rw [if_neg (by simp [hworker])]
      exact embedBatches_of_works hworks _ _ _ _ _ (wellFormed_remove hwell ids)
        hdims
  rw [storeChanges, andThen_of_ok hembed]
  split
  · rw [hworks.saveFault_eq, save_of_none]
  · rfl

theorem fullSync_of_works {dims : Nat} {json : HeaderJson} {io : Io}
    {E : Embedder dims} (hworks : Works io E) {works episodes : List Answer}
    {m : MediaIndex} (hworker : m.worker = true) (hwell : m.index.WellFormed)
    (hdims : m.index.dims = dims) {items : List JsonValue.Value}
    (hitems : fetchItems m.cfg works episodes = .ok items) :
    (fullSync json io works episodes m).1 = .ok () := by
  rw [fullSync, hitems]
  simp only
  rw [andThen_of_ok (storeChanges_of_works hworks _ _ hworker hwell hdims)]

end AssistantHub.MediaOutcome
