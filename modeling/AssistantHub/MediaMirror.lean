import AssistantHub.LibraryDocs
import AssistantHub.MediaOutcome
import Mathlib.Data.Set.Function

namespace AssistantHub.MediaMirror

open AssistantHub.Chunks
open AssistantHub.F32Bytes
open AssistantHub.Fallible
open AssistantHub.HeaderEncoding
open AssistantHub.IndexFiles
open AssistantHub.IndexStore
open AssistantHub.JellyfinItems
open AssistantHub.KeyedTable
open AssistantHub.LibraryDocs
open AssistantHub.MediaDocs
open AssistantHub.MediaEffects
open AssistantHub.MediaOutcome
open AssistantHub.MediaSync

/-- Every entry has the vector of a text that was embedded and whose hash it
stores. -/
def Paired {dims : Nat} (E : Embedder dims) (m : MediaIndex) : Prop :=
  ∀ id e v, m.index.find id = some (e, v) →
    ∃ text ∈ m.embedded, e.hash = fnv1a text ∧ v = E.vector text

theorem answered_eq {dims : Nat} {E : Embedder dims} {io : Io}
    (huses : Uses io E) {text : String} {v : List F32}
    (h : Answered io text v) : v = E.vector text := by
  obtain ⟨n, texts, vectors, hembed, hmem⟩ := h
  rw [huses _ _ _ hembed, ← List.map_prod_left_eq_zip] at hmem
  obtain ⟨t, -, heq⟩ := List.mem_map.mp hmem
  obtain ⟨rfl, rfl⟩ := Prod.mk.inj heq
  rfl

theorem paired_remove {dims : Nat} {E : Embedder dims} {m : MediaIndex}
    (hsound : Sound m) (h : Paired E m) (ids : List String) :
    Paired E { m with index := (m.index.remove ids).2 } := by
  intro id e v hfind
  rw [find_remove hsound.wellFormed] at hfind
  split at hfind
  · cases hfind
  · exact h id e v hfind

theorem paired_effect {dims : Nat} {E : Embedder dims} {json : HeaderJson}
    {io : Io} (huses : Uses io E) {todo : List Doc}
    (hhash : ∀ d ∈ todo, d.entry.hash = fnv1a d.text) {a b : MediaIndex}
    (hstep : Effect json io todo a b) (hsound : Sound a)
    (ha : Paired E a) : Paired E b := by
  cases hstep with
  | indexing done total => exact ha
  | answered batch =>
      intro id e v hfind
      obtain ⟨text, htext, hpair⟩ := ha id e v hfind
      exact ⟨text, List.mem_append_left _ htext, hpair⟩
  | upsert d v hd htext hanswered =>
      intro id e w hfind
      by_cases hlength : v.length = a.index.dims
      · rw [find_upsert hsound.wellFormed d.entry hlength] at hfind
        split at hfind
        · obtain ⟨rfl, rfl⟩ := Prod.mk.inj (Option.some.inj hfind)
          exact ⟨d.text, htext, hhash d hd, answered_eq huses hanswered⟩
        · exact ha id e w hfind
      · rw [upsert_of_length_ne d.entry hlength] at hfind
        exact ha id e w hfind
  | save fault => exact ha

theorem paired_storeChanges {dims : Nat} {E : Embedder dims}
    {json : HeaderJson} {io : Io} (huses : Uses io E) {ids : List String}
    {docs : List Doc} (hhash : ∀ d ∈ docs, d.entry.hash = fnv1a d.text)
    {m : MediaIndex} (hsound : Sound m) (h : Paired E m) :
    Paired E (storeChanges json io ids docs m).2 := by
  have hboth := storeChanges_induct json io ids docs
    (p := fun a => Sound a ∧ Paired E a)
    ⟨sound_remove hsound ids, paired_remove hsound h ids⟩
    fun a b hstep ha => ⟨sound_effect hstep ha.1, paired_effect huses
      (fun d hd => hhash d (List.mem_of_mem_filter hd)) hstep ha.1 ha.2⟩
  exact hboth.2

theorem hash_of_mem_filterMap {items : List JsonValue.Value} {d : Doc}
    (h : d ∈ items.filterMap document) : d.entry.hash = fnv1a d.text := by
  obtain ⟨item, -, hd⟩ := List.mem_filterMap.mp h
  exact hash_document hd

theorem hash_of_mem_fetchChanged {types fields : String}
    {answers : List Answer} {chunks : List (List String)} {docs : List Doc}
    (h : fetchChanged types fields answers chunks = .ok docs) :
    ∀ d ∈ docs, d.entry.hash = fnv1a d.text := by
  induction chunks generalizing answers docs with
  | nil =>
      have hnil : docs = [] := by
        cases answers <;> exact (Except.ok.inj h).symm
      simp [hnil]
  | cons chunk rest ih =>
      cases answers with
      | nil => cases h
      | cons answer answers =>
          rw [fetchChanged] at h
          split at h
          · cases h
          · cases hrest : fetchChanged types fields answers rest with
            | error err =>
                rw [hrest] at h
                cases h
            | ok docs' =>
                rw [hrest] at h
                obtain rfl := Except.ok.inj h
                intro d hd
                rcases List.mem_append.mp hd with hd | hd
                · exact hash_of_mem_filterMap hd
                · exact ih hrest d hd

/-- The states that calls reach from the empty index, whatever the server, the
embedder and the disk do. -/
inductive Called (json : HeaderJson) (cfg : MediaConfig)
    (E : Embedder cfg.dims) : MediaIndex → Prop where
  | new (worker : Bool) (dir : Dir) :
      Called json cfg E { MediaIndex.new cfg dir with worker := worker }
  | fullSync {m : MediaIndex} (io : Io) (works episodes : List Answer) :
      Called json cfg E m → Uses io E →
      Called json cfg E (fullSync json io works episodes m).2
  | apply {m : MediaIndex} (io : Io) (answers : List Answer)
      (changes : Changes) :
      Called json cfg E m → Uses io E →
      Called json cfg E (apply json io answers changes m).2

theorem Called.invariant {json : HeaderJson} {cfg : MediaConfig}
    {E : Embedder cfg.dims} {m : MediaIndex} (h : Called json cfg E m) :
    Sound m ∧ m.cfg = cfg ∧ Paired E m := by
  induction h with
  | new worker dir =>
      refine ⟨⟨wellFormed_new _, rfl⟩, rfl, ?_⟩
      intro id e v hfind
      cases hfind
  | @fullSync m io works episodes _ huses ih =>
      obtain ⟨hsound, hcfg, hpaired⟩ := ih
      have hframe := frame_fullSync json io works episodes m
      refine ⟨sound_fullSync hsound _ _ _ _,
        (congrArg Prod.fst hframe).trans hcfg, ?_⟩
      exact fullSync_induct hpaired
        (fun _ _ => paired_storeChanges huses
          (fun _ hd => hash_of_mem_filterMap hd) hsound hpaired)
        fun _ ha => ha
  | @apply m io answers changes _ huses ih =>
      obtain ⟨hsound, hcfg, hpaired⟩ := ih
      have hframe := frame_apply json io answers changes m
      refine ⟨sound_apply hsound _ _ _ _,
        (congrArg Prod.fst hframe).trans hcfg, ?_⟩
      exact apply_induct hpaired fun _ hdocs => paired_storeChanges huses
        (hash_of_mem_fetchChanged hdocs) hsound hpaired

theorem mem_goneIds {ix : Index F32} (h : ix.WellFormed) {docs : List Doc}
    {id : String} :
    id ∈ goneIds ix docs ↔
      ix.find id ≠ none ∧ id ∉ docs.map fun d => d.entry.id := by
  rw [goneIds, List.mem_filter, decide_eq_true_eq, h.find_ne_none_iff]

theorem needsEmbedding_remove_goneIds {ix : Index F32} (h : ix.WellFormed)
    {docs : List Doc} {d : Doc} (hd : d ∈ docs) :
    needsEmbedding (ix.remove (goneIds ix docs)).2 d = needsEmbedding ix d := by
  have hkept : d.entry.id ∉ goneIds ix docs := by
    rw [mem_goneIds h]
    exact fun hgone => hgone.2 (List.mem_map_of_mem hd)
  rw [needsEmbedding, needsEmbedding,
    (wellFormed_remove h _).get_eq_find, h.get_eq_find, find_remove h,
    if_neg hkept]

theorem todo_goneIds {ix : Index F32} (h : ix.WellFormed) (docs : List Doc) :
    todo ix (goneIds ix docs) docs = docs.filter (needsEmbedding ix) :=
  List.filter_congr fun _ hd => needsEmbedding_remove_goneIds h hd

theorem find_compare {dims : Nat} {E : Embedder dims} {json : HeaderJson}
    {io : Io} (huses : Uses io E) {docs : List Doc} {m : MediaIndex}
    (hwell : m.index.WellFormed) (hdims : m.index.dims = dims)
    (hok : (storeChanges json io (goneIds m.index docs) docs m).1 = .ok ())
    (id : String) :
    (∃ d ∈ docs, d.entry.id = id ∧ needsEmbedding m.index d = true ∧
        (storeChanges json io (goneIds m.index docs) docs m).2.index.find id =
          some (docRow E d)) ∨
      ((∀ d ∈ docs, d.entry.id = id → needsEmbedding m.index d = false) ∧
        (storeChanges json io (goneIds m.index docs) docs m).2.index.find id =
          if id ∈ docs.map (fun d => d.entry.id) then m.index.find id
          else none) := by
  rcases find_storeChanges huses hwell hdims hok id with
    ⟨d, hd, hid, hneeds, hfind⟩ | ⟨hneeds, hfind⟩
  · rw [needsEmbedding_remove_goneIds hwell hd] at hneeds
    exact Or.inl ⟨d, hd, hid, hneeds, hfind⟩
  · refine Or.inr ⟨?_, ?_⟩
    · intro d hd hid
      rw [← needsEmbedding_remove_goneIds hwell hd]
      exact hneeds d hd hid
    · rw [hfind]
      by_cases hid : id ∈ docs.map fun d => d.entry.id
      · rw [if_pos hid, if_neg fun hgone => ((mem_goneIds hwell).mp hgone).2 hid]
      · rw [if_neg hid]
        split
        · rfl
        · rename_i hgone
          by_contra hne
          exact hgone ((mem_goneIds hwell).mpr ⟨hne, hid⟩)

theorem fullSync_of_ok {json : HeaderJson} {io : Io}
    {works episodes : List Answer} {m : MediaIndex}
    (hok : (fullSync json io works episodes m).1 = .ok ()) :
    ∃ items, fetchItems m.cfg works episodes = .ok items ∧
      (storeChanges json io (goneIds m.index (items.filterMap document))
        (items.filterMap document) m).1 = .ok () ∧
      (fullSync json io works episodes m).2 =
        { (storeChanges json io (goneIds m.index (items.filterMap document))
            (items.filterMap document) m).2 with
          lastFullSync := some io.now
          state := .ready } := by
  rw [fullSync] at hok ⊢
  cases hitems : fetchItems m.cfg works episodes with
  | error err =>
      rw [hitems] at hok
      cases hok
  | ok items =>
      rw [hitems] at hok
      have hstored := ((andThen_fst_eq_ok _ _).mp hok).1
      refine ⟨items, rfl, hstored, ?_⟩
      simp only
      rw [andThen_of_ok hstored]

/-- The index has the IDs of the documents, each with the hash of its text. -/
structure Tracks (docs : List Doc) (ix : Index F32) : Prop where
  id_iff : ∀ id, ix.find id ≠ none ↔ id ∈ docs.map fun d => d.entry.id
  hash_eq : ∀ d ∈ docs, ∃ r, ix.find d.entry.id = some r ∧
    r.1.hash = d.entry.hash

theorem tracks_of_fullSync {dims : Nat} {E : Embedder dims} {json : HeaderJson}
    {io : Io} (huses : Uses io E) {m : MediaIndex} (hsound : Sound m)
    (hdims : m.cfg.dims = dims) {lib : Library} {works episodes : List Answer}
    (hworks : ∀ a ∈ works, Serves lib a)
    (hepisodes : ∀ a ∈ episodes, Serves lib a)
    (hok : (fullSync json io works episodes m).1 = .ok ()) :
    Tracks (libraryDocs m.cfg lib)
      (fullSync json io works episodes m).2.index := by
  obtain ⟨items, hitems, hstored, hsync⟩ := fullSync_of_ok hok
  rw [fetchItems_of_serves hworks hepisodes hitems] at hstored hsync
  have hwell := hsound.wellFormed
  have hfind := find_compare huses hwell (hsound.dims_eq.trans hdims) hstored
  rw [hsync]
  constructor
  · intro id
    change (storeChanges json io _ _ m).2.index.find id ≠ none ↔ _
    rcases hfind id with ⟨d, hd, hid, -, hrow⟩ | ⟨hneeds, hrow⟩
    · rw [hrow]
      simp only [ne_eq, reduceCtorEq, not_false_eq_true, true_iff]
      exact hid ▸ List.mem_map_of_mem hd
    · rw [hrow]
      constructor
      · intro hne
        by_contra hid
        exact hne (if_neg hid)
      · intro hid
        obtain ⟨d, hd, hdid⟩ := List.mem_map.mp hid
        obtain ⟨r, hr, -⟩ :=
          (needsEmbedding_eq_false_iff hwell d).mp (hneeds d hd hdid)
        rw [if_pos hid, ← hdid, hr]
        simp
  · intro d hd
    change ∃ r, (storeChanges json io _ _ m).2.index.find _ = _ ∧ _
    rcases hfind d.entry.id with ⟨d', hd', hid, -, hrow⟩ | ⟨hneeds, hrow⟩
    · obtain rfl := doc_eq_of_id_eq hd' hd hid
      exact ⟨_, hrow, rfl⟩
    · obtain ⟨r, hr, hhash⟩ :=
        (needsEmbedding_eq_false_iff hwell d).mp (hneeds d hd rfl)
      rw [hrow, if_pos (List.mem_map_of_mem hd)]
      exact ⟨r, hr, hhash⟩

/-- The index is the mirror of the library: its IDs, the vector of each, and
the texts that had to be embedded for it. -/
structure Mirrors {dims : Nat} (E : Embedder dims) (lib : Library)
    (before after : MediaIndex) : Prop where
  id_iff : ∀ id, after.index.find id ≠ none ↔
    ∃ item ∈ lib.items, ∃ d, document item = some d ∧
      Indexed before.cfg d.entry.kind ∧ d.entry.id = id
  row : ∀ item ∈ lib.items, ∀ d, document item = some d →
    Indexed before.cfg d.entry.kind →
    ∃ e, after.index.find d.entry.id = some (e, E.vector d.text) ∧
      e.hash = d.entry.hash
  embedded : after.embedded = before.embedded ++
    ((libraryDocs before.cfg lib).filter fun d =>
      (before.index.get d.entry.id).map Entry.hash ≠
        some d.entry.hash).map Doc.text

def knownTexts (m : MediaIndex) (lib : Library) : Set String :=
  { text | text ∈ m.embedded ∨ ∃ d ∈ libraryDocs m.cfg lib, d.text = text }

theorem mirrors_of_fullSync {dims : Nat} {E : Embedder dims}
    {json : HeaderJson} {io : Io} (huses : Uses io E) {m : MediaIndex}
    (hsound : Sound m) (hdims : m.cfg.dims = dims) (hpaired : Paired E m)
    {lib : Library} {works episodes : List Answer}
    (hworks : ∀ a ∈ works, Serves lib a)
    (hepisodes : ∀ a ∈ episodes, Serves lib a)
    (hinj : Set.InjOn fnv1a (knownTexts m lib))
    (hok : (fullSync json io works episodes m).1 = .ok ()) :
    Mirrors E lib m (fullSync json io works episodes m).2 := by
  have htracks := tracks_of_fullSync huses hsound hdims hworks hepisodes hok
  obtain ⟨items, hitems, hstored, hsync⟩ := fullSync_of_ok hok
  rw [fetchItems_of_serves hworks hepisodes hitems] at hstored hsync
  have hwell := hsound.wellFormed
  have hixdims := hsound.dims_eq.trans hdims
  refine { id_iff := ?_, row := ?_, embedded := ?_ }
  · intro id
    rw [htracks.id_iff]
    simp only [List.mem_map, mem_libraryDocs]
    constructor
    · rintro ⟨d, ⟨item, hitem, hd, hkind⟩, hid⟩
      exact ⟨item, hitem, d, hd, hkind, hid⟩
    · rintro ⟨item, hitem, d, hd, hkind, hid⟩
      exact ⟨d, ⟨item, hitem, hd, hkind⟩, hid⟩
  · intro item hitem d hd hkind
    rw [hsync]
    change ∃ e, (storeChanges json io _ _ m).2.index.find _ = _ ∧ _
    have hmem := mem_libraryDocs.mpr ⟨item, hitem, hd, hkind⟩
    rcases find_compare huses hwell hixdims hstored d.entry.id with
      ⟨d', hd', hid, -, hrow⟩ | ⟨hneeds, hrow⟩
    · obtain rfl := doc_eq_of_id_eq hd' hmem hid
      exact ⟨d'.entry, hrow, rfl⟩
    · obtain ⟨⟨e, v⟩, hr, hhash⟩ :=
        (needsEmbedding_eq_false_iff hwell d).mp (hneeds d hmem rfl)
      obtain ⟨text, htext, htextHash, rfl⟩ := hpaired _ e v hr
      -- The row was embedded from a text with the same hash, hence from this one.
      have hsame : text = d.text := by
        apply hinj (Or.inl htext) (Or.inr ⟨d, hmem, rfl⟩)
        rw [← htextHash, ← hash_document hd]
        exact hhash
      rw [hrow, if_pos (List.mem_map_of_mem hmem), hr, hsame]
      exact ⟨e, rfl, hhash⟩
  · rw [hsync]
    change (storeChanges json io _ _ m).2.embedded = _
    obtain ⟨-, hembedded⟩ := storeChanges_of_ok huses hwell hixdims hstored
    rw [hembedded, todo_goneIds hwell]
    rfl

/-- In every reachable state the rows are paired, and a successful full
comparison of an unchanged library makes the index its mirror. -/
theorem fullSync_mirrors {json : HeaderJson} {cfg : MediaConfig}
    {E : Embedder cfg.dims} {m : MediaIndex} (hm : Called json cfg E m) :
    (∀ id e v, m.index.find id = some (e, v) →
      ∃ text ∈ m.embedded, e.hash = fnv1a text ∧ v = E.vector text) ∧
    ∀ (io : Io) (lib : Library) (works episodes : List Answer), Uses io E →
      (∀ a ∈ works, Serves lib a) → (∀ a ∈ episodes, Serves lib a) →
      Set.InjOn fnv1a (knownTexts m lib) →
      (fullSync json io works episodes m).1 = .ok () →
      Mirrors E lib m (fullSync json io works episodes m).2 := by
  obtain ⟨hsound, rfl, hpaired⟩ := hm.invariant
  refine ⟨hpaired, ?_⟩
  intro io lib works episodes huses hworks hepisodes hinj hok
  exact mirrors_of_fullSync huses hsound rfl hpaired hworks hepisodes hinj hok

/-- A movie as the fake Jellyfin of the tests has it. -/
def movie (id name overview : String) : JsonValue.Value :=
  .object
    [("Type", .string "Movie"), ("Id", .string id), ("Name", .string name),
      ("Overview", .string overview)]

def dune : JsonValue.Value := movie "m1" "Dune" "The desert planet Arrakis."

def duneLibrary : Library where
  items := [dune]
  ids_nodup := by decide
  size_lt := by decide

def answerFrom (lib : Library) : Answer := fun req => .ok (lib.page PAGE req)

/-- An answer of Jellyfin with as many items as were asked for. -/
def listFrom (lib : Library) : Answer := fun req => .ok (lib.page req.limit req)

def cocoLibrary : Library where
  items := [dune, movie "m2" "Coco" "The land of the dead."]
  ids_nodup := by decide
  size_lt := by decide

theorem serves_answerFrom (lib : Library) : Serves lib (answerFrom lib) :=
  fun _ => ⟨PAGE, by decide, rfl⟩

def testConfig : MediaConfig := { model := "model.gguf", dims := 1, episodes := false }

def testEmbedder : Embedder testConfig.dims where
  vector text := [⟨UInt32.ofNat text.length⟩]
  length_vector _ := rfl

def goodIo : Io where
  embed _ texts := .ok (texts.map testEmbedder.vector)
  saveFault _ := none
  now := 0

theorem works_goodIo : Works goodIo testEmbedder where
  embed_eq _ _ := rfl
  saveFault_eq _ := rfl

theorem uses_goodIo : Uses goodIo testEmbedder := works_goodIo.uses

def testIndex : MediaIndex :=
  { MediaIndex.new testConfig fun _ => none with worker := true }

theorem called_testIndex : Called compactJson testConfig testEmbedder testIndex :=
  .new true fun _ => none

/-- An answer with one item. -/
def onePage (lib : Library) : Answer := fun req => .ok (lib.page 1 req)

theorem serves_onePage (lib : Library) : Serves lib (onePage lib) :=
  fun _ => ⟨1, Nat.one_pos, rfl⟩

def brokenIo : Io := { goodIo with embed := fun _ _ => .error "no llama-server" }

theorem uses_brokenIo : Uses brokenIo testEmbedder := by
  intro n texts vectors h
  cases h

def threeMovies : Library where
  items := [dune, movie "m2" "Coco" "", movie "m3" "Up" ""]
  ids_nodup := by decide
  size_lt := by decide

def fourMovies : Library where
  items := [dune, movie "m2" "Coco" "", movie "m3" "Up" "", movie "m4" "Heat" ""]
  ids_nodup := by decide
  size_lt := by decide

/-- The first movie as before, the second with another text, the third gone and
the fourth new. -/
def laterMovies : Library where
  items := [dune, movie "m2" "Coco" "The land of the dead.", movie "m4" "Heat" ""]
  ids_nodup := by decide
  size_lt := by decide

/-- The index of three movies after a comparison that could not embed a fourth
one. -/
abbrev failedIndex : MediaIndex :=
  (fullSync compactJson brokenIo (List.replicate 4 (onePage fourMovies)) []
    (fullSync compactJson goodIo (List.replicate 3 (onePage threeMovies)) []
      testIndex).2).2

theorem called_failedIndex :
    Called compactJson testConfig testEmbedder failedIndex :=
  .fullSync brokenIo _ _ (.fullSync goodIo _ _ called_testIndex uses_goodIo)
    uses_brokenIo

def movieTexts : List String :=
  ["title: Dune | text: Movie. The desert planet Arrakis.",
    "title: Coco | text: Movie.", "title: Up | text: Movie.",
    "title: Coco | text: Movie. The land of the dead.",
    "title: Heat | text: Movie."]

set_option maxRecDepth 4000 in
theorem fullSync_mirrors_laterMovies :
    (fullSync compactJson brokenIo (List.replicate 4 (onePage fourMovies)) []
      (fullSync compactJson goodIo (List.replicate 3 (onePage threeMovies)) []
        testIndex).2).1 ≠ .ok () ∧
    Mirrors testEmbedder laterMovies failedIndex
      (fullSync compactJson goodIo (List.replicate 3 (onePage laterMovies)) []
        failedIndex).2 := by
  have hserves : ∀ a ∈ List.replicate 3 (onePage laterMovies),
      Serves laterMovies a := by
    intro a ha
    rw [List.eq_of_mem_replicate ha]
    exact serves_onePage laterMovies
  refine ⟨by decide +kernel, ?_⟩
  refine (fullSync_mirrors called_failedIndex).2 goodIo laterMovies _ _ uses_goodIo
    hserves (by simp) ?_ (by decide +kernel)
  have hknown : ∀ text ∈ knownTexts failedIndex laterMovies, text ∈ movieTexts := by
    rintro text (htext | ⟨d, hd, rfl⟩)
    · have hembedded : failedIndex.embedded = movieTexts.take 3 := by
        decide +kernel
      rw [hembedded] at htext
      exact List.mem_of_mem_take htext
    · have hdocs : ∀ text ∈ (libraryDocs testConfig laterMovies).map Doc.text,
          text ∈ movieTexts := by decide
      exact hdocs _ (List.mem_map_of_mem hd)
  have hnodup : (movieTexts.map fnv1a).Nodup := by decide
  intro a ha b hb heq
  exact List.inj_on_of_nodup_map hnodup (hknown a ha) (hknown b hb) heq

abbrev duneIndex : MediaIndex :=
  (fullSync compactJson goodIo [answerFrom duneLibrary] [] testIndex).2

theorem called_duneIndex : Called compactJson testConfig testEmbedder duneIndex :=
  .fullSync goodIo _ _ called_testIndex uses_goodIo

theorem frame_duneIndex : frame duneIndex = (testConfig, true) :=
  frame_fullSync _ _ _ _ _

end AssistantHub.MediaMirror
