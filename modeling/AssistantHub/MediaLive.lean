import AssistantHub.MediaMirror
import Mathlib.Data.List.Perm.Subperm

namespace AssistantHub.MediaLive

open AssistantHub.Chunks
open AssistantHub.HeaderEncoding
open AssistantHub.IndexStore
open AssistantHub.JellyfinItems
open AssistantHub.JsonValue
open AssistantHub.LibraryDocs
open AssistantHub.MediaDocs
open AssistantHub.MediaMirror
open AssistantHub.MediaOutcome
open AssistantHub.MediaSync

def Library.item (lib : Library) (id : String) : Option Value :=
  lib.items.find? fun item => itemId item = some id

theorem item_eq_some_iff {lib : Library} {id : String} {item : Value} :
    Library.item lib id = some item ↔
      item ∈ lib.items ∧ itemId item = some id := by
  constructor
  · intro h
    exact ⟨List.mem_of_find?_eq_some h, by simpa using List.find?_some h⟩
  · rintro ⟨hmem, hid⟩
    cases hfind : Library.item lib id with
    | none =>
        have := List.find?_eq_none.mp hfind item hmem
        simp [hid] at this
    | some item' =>
        have hmem' := List.mem_of_find?_eq_some hfind
        have hid' : itemId item' = some id := by
          simpa using List.find?_some hfind
        rw [item_eq_of_id_eq hmem hmem' hid hid']

theorem mem_libraryDocs_iff_item {cfg : MediaConfig} {lib : Library} {d : Doc} :
    d ∈ libraryDocs cfg lib ↔
      ∃ item, Library.item lib d.entry.id = some item ∧
        document item = some d ∧ Indexed cfg d.entry.kind := by
  rw [mem_libraryDocs]
  constructor
  · rintro ⟨item, hitem, hd, hkind⟩
    exact ⟨item, item_eq_some_iff.mpr ⟨hitem, id_document hd⟩, hd, hkind⟩
  · rintro ⟨item, hitem, hd, hkind⟩
    exact ⟨item, (item_eq_some_iff.mp hitem).1, hd, hkind⟩

/-- The answer comes from this library, with as many items as were asked for. -/
def Lists (lib : Library) (answer : Answer) : Prop :=
  ∀ req, answer req = .ok (lib.page req.limit req)

theorem requested_iff_indexed {cfg : MediaConfig} {item : Value} {d : Doc}
    (h : document item = some d) :
    (∃ t ∈ splitComma (changeTypes cfg), itemType item = some t) ↔
      Indexed cfg d.entry.kind := by
  obtain ⟨t, htype, hfrom⟩ := document_type h
  have hkind := fromJellyfin_eq_some hfrom
  rw [changeTypes]
  split
  · rename_i hepisodes
    have htypes : splitComma "Series,Movie,Episode" =
        ["Series", "Movie", "Episode"] := by decide
    rw [htypes]
    constructor
    · intro _ _
      exact hepisodes
    · intro _
      refine ⟨t, ?_, htype⟩
      rcases hkind with ⟨rfl, -⟩ | ⟨rfl, -⟩ | ⟨rfl, -⟩ <;> simp
  · rename_i hepisodes
    have htypes : splitComma "Series,Movie" = ["Series", "Movie"] := by decide
    rw [htypes]
    constructor
    · rintro ⟨t', ht', htype'⟩ hepisode
      obtain rfl := Option.some.inj (htype.symm.trans htype')
      rcases hkind with ⟨rfl, hk⟩ | ⟨rfl, hk⟩ | ⟨rfl, -⟩
      · rw [hk] at hepisode
        cases hepisode
      · rw [hk] at hepisode
        cases hepisode
      · simp at ht'
    · intro hindexed
      refine ⟨t, ?_, htype⟩
      rcases hkind with ⟨rfl, -⟩ | ⟨rfl, -⟩ | ⟨rfl, hk⟩
      · simp
      · simp
      · exact absurd (hindexed hk) hepisodes

theorem length_matching_le {lib : Library} {types : String}
    {chunk : List String} (hne : chunk ≠ []) (hcomma : ∀ id ∈ chunk, ',' ∉ id.toList) :
    (lib.matching types (some (",".intercalate chunk))).length ≤
      chunk.length := by
  have hids : ∀ item ∈ lib.matching types (some (",".intercalate chunk)),
      ∃ id ∈ chunk, itemId item = some id := by
    intro item hitem
    obtain ⟨id, hid, hitemId⟩ := (mem_matching.mp hitem).2.2 _ rfl
    rw [splitComma_intercalate hne hcomma] at hid
    exact ⟨id, hid, hitemId⟩
  have hsub : ((lib.matching types
      (some (",".intercalate chunk))).filterMap itemId).Sublist
      (lib.items.filterMap itemId) :=
    List.filter_sublist.filterMap itemId
  have hsubset : (lib.matching types
      (some (",".intercalate chunk))).filterMap itemId ⊆ chunk := by
    intro id hid
    obtain ⟨item, hitem, hitemId⟩ := List.mem_filterMap.mp hid
    obtain ⟨id', hid', hitemId'⟩ := hids item hitem
    obtain rfl := Option.some.inj (hitemId.symm.trans hitemId')
    exact hid'
  have hlength : ((lib.matching types
      (some (",".intercalate chunk))).filterMap itemId).length =
      (lib.matching types (some (",".intercalate chunk))).length := by
    rw [List.length_filterMap_eq_countP, List.countP_eq_length]
    intro item hitem
    obtain ⟨id, -, hitemId⟩ := hids item hitem
    simp [hitemId]
  rw [← hlength]
  exact ((hsub.nodup lib.ids_nodup).subperm hsubset).length_le

theorem mem_fetchChanged {cfg : MediaConfig} {lib : Library}
    {answers : List Answer} {chunks : List (List String)} {docs : List Doc}
    (hserves : ∀ a ∈ answers, Lists lib a) (hne : ∀ chunk ∈ chunks, chunk ≠ [])
    (hcomma : ∀ chunk ∈ chunks, ∀ id ∈ chunk, ',' ∉ id.toList)
    (hok : fetchChanged (changeTypes cfg) changeFields answers chunks = .ok docs)
    (d : Doc) :
    d ∈ docs ↔ d ∈ libraryDocs cfg lib ∧ d.entry.id ∈ chunks.flatten := by
  induction chunks generalizing answers docs with
  | nil =>
      have hnil : docs = [] := by
        cases answers <;> exact (Except.ok.inj hok).symm
      simp [hnil]
  | cons chunk rest ih =>
      cases answers with
      | nil => cases hok
      | cons answer answers =>
          have hpage := hserves answer List.mem_cons_self
            ⟨changeTypes cfg, changeFields, 0, chunk.length,
              some (",".intercalate chunk)⟩
          have hchunk := hne chunk List.mem_cons_self
          have hchunkComma := hcomma chunk List.mem_cons_self
          have hitems : pageItems (lib.page chunk.length
              ⟨changeTypes cfg, changeFields, 0, chunk.length,
                some (",".intercalate chunk)⟩) =
              (lib.matching (changeTypes cfg)
                (some (",".intercalate chunk))).map (sent changeFields) := by
            rw [pageItems_page, List.drop_zero, Nat.min_self,
              List.take_of_length_le (length_matching_le hchunk hchunkComma)]
          have hfirst : d ∈ (pageItems (lib.page chunk.length
              ⟨changeTypes cfg, changeFields, 0, chunk.length,
                some (",".intercalate chunk)⟩)).filterMap document ↔
              d ∈ libraryDocs cfg lib ∧ d.entry.id ∈ chunk := by
            rw [hitems, filterMap_document_sent (covers_changes cfg)
              fun _ => mem_matching_type, List.mem_filterMap, mem_libraryDocs]
            constructor
            · rintro ⟨item, hitem, hd⟩
              obtain ⟨hmem, htype, hids⟩ := mem_matching.mp hitem
              obtain ⟨id, hid, hitemId⟩ := hids _ rfl
              rw [splitComma_intercalate hchunk hchunkComma] at hid
              obtain rfl := Option.some.inj (hitemId.symm.trans (id_document hd))
              exact ⟨⟨item, hmem, hd, (requested_iff_indexed hd).mp htype⟩, hid⟩
            · rintro ⟨⟨item, hmem, hd, hkind⟩, hid⟩
              refine ⟨item, mem_matching.mpr
                ⟨hmem, (requested_iff_indexed hd).mpr hkind, ?_⟩, hd⟩
              rintro ids ⟨⟩
              rw [splitComma_intercalate hchunk hchunkComma]
              exact ⟨_, hid, id_document hd⟩
          rw [fetchChanged, itemsPage, hpage] at hok
          simp only [Except.map] at hok
          cases hrest : fetchChanged (changeTypes cfg) changeFields answers
              rest with
          | error err =>
              rw [hrest] at hok
              cases hok
          | ok docs' =>
              rw [hrest] at hok
              obtain rfl := Except.ok.inj hok
              have hrestDocs := ih
                (fun a ha => hserves a (List.mem_cons_of_mem _ ha))
                (fun c hc => hne c (List.mem_cons_of_mem _ hc))
                (fun c hc => hcomma c (List.mem_cons_of_mem _ hc)) hrest
              rw [List.mem_append, hfirst, hrestDocs, List.flatten_cons,
                List.mem_append, and_or_left]

/-- A batch of changes that leads from one library to the next. IDs are
hexadecimal, so that a list of them can be joined with commas. -/
structure Leads (old new : Library) (changes : Changes) : Prop where
  changed_mem : ∀ id item, Library.item new id = some item →
    Library.item old id ≠ some item → id ∈ changes.changed
  removed_mem : ∀ id, Library.item old id ≠ none →
    Library.item new id = none → id ∈ changes.removed
  removed_changed : ∀ id ∈ changes.removed, Library.item new id ≠ none →
    id ∈ changes.changed
  comma_free : ∀ id ∈ changes.changed, ',' ∉ id.toList

/-- Where the live path and the full comparison agree: no indexed item became
one without a document, and none that was removed and added again kept its
text but changed its entry. -/
structure Agreeable {dims : Nat} (E : Embedder dims) (new : Library)
    (changes : Changes) (m : MediaIndex) : Prop where
  has_document : ∀ id ∈ changes.changed, id ∉ changes.removed →
    m.index.find id ≠ none → ∀ item, Library.item new id = some item →
    ∃ d, document item = some d ∧ Indexed m.cfg d.entry.kind
  same_row : ∀ id ∈ changes.removed, ∀ item d,
    Library.item new id = some item → document item = some d →
    Indexed m.cfg d.entry.kind → ∀ r, m.index.find id = some r →
    r.1.hash = d.entry.hash → r = docRow E d

theorem apply_of_ok {json : HeaderJson} {io : Io} {answers : List Answer}
    {changes : Changes} {m : MediaIndex}
    (hok : (apply json io answers changes m).1 = .ok ()) :
    ∃ docs, fetchChanged (changeTypes m.cfg) changeFields answers
        (chunks 100 changes.changed) = .ok docs ∧
      (storeChanges json io changes.removed docs m).1 = .ok () ∧
      (apply json io answers changes m).2 =
        (storeChanges json io changes.removed docs m).2 := by
  rw [apply] at hok ⊢
  cases hdocs : fetchChanged (changeTypes m.cfg) changeFields answers
      (chunks 100 changes.changed) with
  | error err =>
      rw [hdocs] at hok
      cases hok
  | ok docs =>
      rw [hdocs] at hok
      exact ⟨docs, rfl, hok, rfl⟩

theorem mem_of_applied {cfg : MediaConfig} {lib : Library}
    {answers : List Answer} {changes : Changes} {docs : List Doc}
    (hlists : ∀ a ∈ answers, Lists lib a)
    (hcomma : ∀ id ∈ changes.changed, ',' ∉ id.toList)
    (hok : fetchChanged (changeTypes cfg) changeFields answers
      (chunks 100 changes.changed) = .ok docs) (d : Doc) :
    d ∈ docs ↔ d ∈ libraryDocs cfg lib ∧ d.entry.id ∈ changes.changed := by
  have hmem := mem_fetchChanged hlists
    (fun _ hc => ne_nil_of_mem_chunks (by decide) hc)
    (fun _ hc id hid => hcomma id (mem_of_mem_chunks hc hid)) hok d
  rw [flatten_chunks] at hmem
  exact hmem

theorem find_eq_of_document {dims : Nat} {E : Embedder dims} {old new : Library}
    {changes : Changes} {m : MediaIndex} (hwell : m.index.WellFormed)
    (htracks : Tracks (libraryDocs m.cfg old) m.index)
    (hleads : Leads old new changes) (hagree : Agreeable E new changes m)
    {d : Doc} (hd : d ∈ libraryDocs m.cfg new)
    {live full : Option (Entry × List F32Bytes.F32)}
    (hlive : d.entry.id ∈ changes.changed ∧
        needsEmbedding (m.index.remove changes.removed).2 d = true ∧
        live = some (docRow E d) ∨
      (d.entry.id ∈ changes.changed →
        needsEmbedding (m.index.remove changes.removed).2 d = false) ∧
        live = if d.entry.id ∈ changes.removed then none
          else m.index.find d.entry.id)
    (hfull : needsEmbedding m.index d = true ∧ full = some (docRow E d) ∨
      needsEmbedding m.index d = false ∧ full = m.index.find d.entry.id) :
    live = full := by
  obtain ⟨item, hitem, hdoc, hkind⟩ := mem_libraryDocs_iff_item.mp hd
  have hpresent : Library.item new d.entry.id ≠ none := by simp [hitem]
  have hremove := find_remove hwell changes.removed d.entry.id
  have hneeds := needsEmbedding_eq_false_iff hwell d
  have hneedsRemoved := needsEmbedding_eq_false_iff
    (wellFormed_remove hwell changes.removed) d
  rw [hremove] at hneedsRemoved
  by_cases hremoved : d.entry.id ∈ changes.removed
  · -- Removed and added again: the live path always embeds it.
    have hchanged := hleads.removed_changed _ hremoved hpresent
    rw [if_pos hremoved] at hneedsRemoved
    rcases hlive with ⟨-, -, rfl⟩ | ⟨hfalse, -⟩
    · rcases hfull with ⟨-, rfl⟩ | ⟨hfalse, rfl⟩
      · rfl
      · obtain ⟨r, hr, hhash⟩ := hneeds.mp hfalse
        rw [hr, hagree.same_row _ hremoved item d hitem hdoc hkind r hr hhash]
    · obtain ⟨r, hr, -⟩ := hneedsRemoved.mp (hfalse hchanged)
      cases hr
  · rw [if_neg hremoved, ← hneeds] at hneedsRemoved
    rw [if_neg hremoved] at hlive
    rcases hfull with ⟨htrue, rfl⟩ | ⟨hfalse, rfl⟩
    · rcases hlive with ⟨-, -, rfl⟩ | ⟨hfalse, -⟩
      · rfl
      · -- An item that is not in the batch is in the index with its text.
        have hunchanged : d.entry.id ∉ changes.changed := by
          intro hchanged
          rw [hneedsRemoved.mp (hfalse hchanged)] at htrue
          cases htrue
        have hold : Library.item old d.entry.id = some item := by
          by_contra hne
          exact hunchanged (hleads.changed_mem _ item hitem hne)
        have hdOld := mem_libraryDocs_iff_item.mpr ⟨item, hold, hdoc, hkind⟩
        rw [hneeds.mpr (htracks.hash_eq d hdOld)] at htrue
        cases htrue
    · rcases hlive with ⟨-, htrue, -⟩ | ⟨-, rfl⟩
      · rw [hneedsRemoved.mpr hfalse] at htrue
        cases htrue
      · rfl

/-- An ID without a document in the new library leaves the index on the live
path too. -/
theorem find_eq_none_of_no_document {dims : Nat} {E : Embedder dims}
    {old new : Library} {changes : Changes} {m : MediaIndex}
    (htracks : Tracks (libraryDocs m.cfg old) m.index)
    (hleads : Leads old new changes) (hagree : Agreeable E new changes m)
    {id : String} (hid : ∀ d ∈ libraryDocs m.cfg new, d.entry.id ≠ id)
    (hremoved : id ∉ changes.removed) : m.index.find id = none := by
  by_contra hne
  obtain ⟨d, hd, rfl⟩ := List.mem_map.mp ((htracks.id_iff id).mp hne)
  obtain ⟨item, hold, hdoc, hkind⟩ := mem_libraryDocs_iff_item.mp hd
  cases hnew : Library.item new d.entry.id with
  | none => exact hremoved (hleads.removed_mem _ (by simp [hold]) hnew)
  | some item' =>
      by_cases hchanged : d.entry.id ∈ changes.changed
      · obtain ⟨d', hdoc', hkind'⟩ :=
          hagree.has_document _ hchanged hremoved hne item' hnew
        have hid' : d'.entry.id = d.entry.id := by
          have := (item_eq_some_iff.mp hnew).2.symm.trans (id_document hdoc')
          exact (Option.some.inj this).symm
        exact hid d' (mem_libraryDocs_iff_item.mpr
          ⟨item', hid' ▸ hnew, hdoc', hkind'⟩) hid'
      · have hsame : item = item' := by
          by_contra hdiff
          refine hchanged (hleads.changed_mem _ item' hnew ?_)
          rw [hold]
          exact fun h => hdiff (Option.some.inj h)
        exact hid d (mem_libraryDocs_iff_item.mpr
          ⟨item, hsame ▸ hnew, hdoc, hkind⟩) rfl

section Paths

variable {dims : Nat} {E : Embedder dims} {json : HeaderJson} {io : Io}
  {m : MediaIndex} {lib : Library}

theorem find_live (huses : Uses io E) (hwell : m.index.WellFormed)
    (hdims : m.index.dims = dims) {removed changed : List String} {docs : List Doc}
    (hmem : ∀ d, d ∈ docs ↔ d ∈ libraryDocs m.cfg lib ∧ d.entry.id ∈ changed)
    (hok : (storeChanges json io removed docs m).1 = .ok ())
    {d : Doc} (hd : d ∈ libraryDocs m.cfg lib) :
    d.entry.id ∈ changed ∧ needsEmbedding (m.index.remove removed).2 d = true ∧
        (storeChanges json io removed docs m).2.index.find d.entry.id =
          some (docRow E d) ∨
      (d.entry.id ∈ changed →
          needsEmbedding (m.index.remove removed).2 d = false) ∧
        (storeChanges json io removed docs m).2.index.find d.entry.id =
          if d.entry.id ∈ removed then none else m.index.find d.entry.id := by
  rcases find_storeChanges huses hwell hdims hok d.entry.id with
    ⟨d', hd', hid, hneeds, hrow⟩ | ⟨hneeds, hrow⟩
  · obtain ⟨hd', hchanged⟩ := (hmem d').mp hd'
    obtain rfl := doc_eq_of_id_eq hd' hd hid
    exact Or.inl ⟨hchanged, hneeds, hrow⟩
  · refine Or.inr ⟨?_, hrow⟩
    intro hchanged
    exact hneeds d ((hmem d).mpr ⟨hd, hchanged⟩) rfl

theorem find_live_of_no_document (huses : Uses io E) (hwell : m.index.WellFormed)
    (hdims : m.index.dims = dims) {removed changed : List String} {docs : List Doc}
    (hmem : ∀ d, d ∈ docs ↔ d ∈ libraryDocs m.cfg lib ∧ d.entry.id ∈ changed)
    (hok : (storeChanges json io removed docs m).1 = .ok ())
    {id : String} (hno : ∀ d ∈ libraryDocs m.cfg lib, d.entry.id ≠ id) :
    (storeChanges json io removed docs m).2.index.find id =
      if id ∈ removed then none else m.index.find id := by
  rcases find_storeChanges huses hwell hdims hok id with
    ⟨d, hd, hid, -, -⟩ | ⟨-, hrow⟩
  · exact absurd hid (hno d ((hmem d).mp hd).1)
  · exact hrow

theorem find_full (huses : Uses io E) (hwell : m.index.WellFormed)
    (hdims : m.index.dims = dims)
    (hok : (storeChanges json io (goneIds m.index (libraryDocs m.cfg lib))
      (libraryDocs m.cfg lib) m).1 = .ok ())
    {d : Doc} (hd : d ∈ libraryDocs m.cfg lib) :
    needsEmbedding m.index d = true ∧
        (storeChanges json io (goneIds m.index (libraryDocs m.cfg lib))
          (libraryDocs m.cfg lib) m).2.index.find d.entry.id = some (docRow E d) ∨
      needsEmbedding m.index d = false ∧
        (storeChanges json io (goneIds m.index (libraryDocs m.cfg lib))
          (libraryDocs m.cfg lib) m).2.index.find d.entry.id =
            m.index.find d.entry.id := by
  rcases find_compare huses hwell hdims hok d.entry.id with
    ⟨d', hd', hid, hneeds, hrow⟩ | ⟨hneeds, hrow⟩
  · obtain rfl := doc_eq_of_id_eq hd' hd hid
    exact Or.inl ⟨hneeds, hrow⟩
  · rw [if_pos (List.mem_map_of_mem hd)] at hrow
    exact Or.inr ⟨hneeds d hd rfl, hrow⟩

theorem find_full_of_no_document (huses : Uses io E) (hwell : m.index.WellFormed)
    (hdims : m.index.dims = dims)
    (hok : (storeChanges json io (goneIds m.index (libraryDocs m.cfg lib))
      (libraryDocs m.cfg lib) m).1 = .ok ())
    {id : String} (hno : ∀ d ∈ libraryDocs m.cfg lib, d.entry.id ≠ id) :
    (storeChanges json io (goneIds m.index (libraryDocs m.cfg lib))
      (libraryDocs m.cfg lib) m).2.index.find id = none := by
  rcases find_compare huses hwell hdims hok id with
    ⟨d, hd, hid, -, -⟩ | ⟨-, hrow⟩
  · exact absurd hid (hno d hd)
  · rw [hrow]
    refine if_neg ?_
    intro hid
    obtain ⟨d, hd, hdid⟩ := List.mem_map.mp hid
    exact hno d hd hdid

end Paths

/-- After a successful full comparison, a batch that leads to the next library
is applied with the same result as another full comparison exactly when the
two paths are agreeable. -/
theorem sameMap_apply_fullSync_iff {json : HeaderJson} {dims : Nat}
    {E : Embedder dims} {m : MediaIndex} (hsound : Sound m)
    (hdims : m.cfg.dims = dims) {old new : Library}
    (htracks : Tracks (libraryDocs m.cfg old) m.index) {changes : Changes}
    (hleads : Leads old new changes) {ioLive ioFull : Io}
    (hlive : Uses ioLive E) (hfull : Uses ioFull E)
    {answers works episodes : List Answer}
    (hlists : ∀ a ∈ answers, Lists new a) (hworks : ∀ a ∈ works, Serves new a)
    (hepisodes : ∀ a ∈ episodes, Serves new a)
    (hokLive : (apply json ioLive answers changes m).1 = .ok ())
    (hokFull : (fullSync json ioFull works episodes m).1 = .ok ()) :
    (apply json ioLive answers changes m).2.index.SameMap
        (fullSync json ioFull works episodes m).2.index ↔
      Agreeable E new changes m := by
  obtain ⟨docs, hdocs, hstoredLive, happly⟩ := apply_of_ok hokLive
  obtain ⟨items, hitems, hstoredFull, hsync⟩ := fullSync_of_ok hokFull
  rw [fetchItems_of_serves hworks hepisodes hitems] at hstoredFull hsync
  have hwell := hsound.wellFormed
  have hixdims := hsound.dims_eq.trans hdims
  have hmem := mem_of_applied hlists hleads.comma_free hdocs
  rw [happly, hsync]
  change (∀ id, (storeChanges json ioLive changes.removed docs m).2.index.find
    id = (storeChanges json ioFull _ _ m).2.index.find id) ↔ _
  constructor
  · intro hsame
    constructor
    · intro id hchanged hremoved hne item hitem
      by_contra hnone
      have hno : ∀ d ∈ libraryDocs m.cfg new, d.entry.id ≠ id := by
        rintro d hd rfl
        obtain ⟨item', hitem', hdoc, hkind⟩ := mem_libraryDocs_iff_item.mp hd
        obtain rfl := Option.some.inj (hitem.symm.trans hitem')
        exact hnone ⟨d, hdoc, hkind⟩
      have hrow := find_live_of_no_document hlive hwell hixdims hmem hstoredLive hno
      have hrow' := find_full_of_no_document hfull hwell hixdims hstoredFull hno
      rw [hsame id, hrow', if_neg hremoved] at hrow
      exact hne hrow.symm
    · intro id hremoved item d hitem hdoc hkind r hr hhash
      obtain rfl : d.entry.id = id := Option.some.inj
        ((id_document hdoc).symm.trans (item_eq_some_iff.mp hitem).2)
      have hd := mem_libraryDocs_iff_item.mpr ⟨item, hitem, hdoc, hkind⟩
      have hchanged := hleads.removed_changed _ hremoved (by simp [hitem])
      rcases find_live hlive hwell hixdims hmem hstoredLive hd with
        ⟨-, -, hrow⟩ | ⟨hneeds, -⟩
      · rcases find_full hfull hwell hixdims hstoredFull hd with
          ⟨hneeds, -⟩ | ⟨-, hrow'⟩
        · rw [(needsEmbedding_eq_false_iff hwell d).mpr ⟨r, hr, hhash⟩] at hneeds
          cases hneeds
        · rw [hr, ← hsame, hrow] at hrow'
          exact (Option.some.inj hrow').symm
      · obtain ⟨r', hr', -⟩ := (needsEmbedding_eq_false_iff
          (wellFormed_remove hwell changes.removed) d).mp (hneeds hchanged)
        rw [find_remove hwell, if_pos hremoved] at hr'
        cases hr'
  · intro hagree id
    by_cases hid : ∃ d ∈ libraryDocs m.cfg new, d.entry.id = id
    · obtain ⟨d, hd, rfl⟩ := hid
      exact find_eq_of_document hwell htracks hleads hagree hd
        (find_live hlive hwell hixdims hmem hstoredLive hd)
        (find_full hfull hwell hixdims hstoredFull hd)
    · have hno : ∀ d ∈ libraryDocs m.cfg new, d.entry.id ≠ id :=
        fun d hd h => hid ⟨d, hd, h⟩
      rw [find_live_of_no_document hlive hwell hixdims hmem hstoredLive hno,
        find_full_of_no_document hfull hwell hixdims hstoredFull hno]
      split
      · rfl
      · rename_i hremoved
        exact find_eq_none_of_no_document htracks hleads hagree hno hremoved

theorem apply_agrees_iff {json : HeaderJson} {cfg : MediaConfig}
    {E : Embedder cfg.dims} {m : MediaIndex} (hm : Called json cfg E m)
    {io : Io} (huses : Uses io E) {works episodes : List Answer}
    {old : Library} (hworks : ∀ a ∈ works, Serves old a)
    (hepisodes : ∀ a ∈ episodes, Serves old a)
    (hok : (fullSync json io works episodes m).1 = .ok ())
    {new : Library} {changes : Changes} (hleads : Leads old new changes)
    {ioLive ioFull : Io} (hlive : Uses ioLive E) (hfull : Uses ioFull E)
    {answers works' episodes' : List Answer}
    (hlists : ∀ a ∈ answers, Lists new a) (hworks' : ∀ a ∈ works', Serves new a)
    (hepisodes' : ∀ a ∈ episodes', Serves new a)
    (hokLive : (apply json ioLive answers changes
      (fullSync json io works episodes m).2).1 = .ok ())
    (hokFull : (fullSync json ioFull works' episodes'
      (fullSync json io works episodes m).2).1 = .ok ()) :
    (apply json ioLive answers changes
        (fullSync json io works episodes m).2).2.index.SameMap
      (fullSync json ioFull works' episodes'
        (fullSync json io works episodes m).2).2.index ↔
      Agreeable E new changes (fullSync json io works episodes m).2 := by
  obtain ⟨hsound, rfl, -⟩ := hm.invariant
  have hframe := congrArg Prod.fst (frame_fullSync json io works episodes m)
  have htracks := tracks_of_fullSync huses hsound rfl hworks hepisodes hok
  refine sameMap_apply_fullSync_iff (sound_fullSync hsound _ _ _ _) ?_ ?_
    hleads hlive hfull hlists hworks' hepisodes' hokLive hokFull
  · exact congrArg MediaConfig.dims hframe
  · rw [show (fullSync json io works episodes m).2.cfg = m.cfg from hframe]
    exact htracks

def blankLibrary : Library where
  items := [movie "m1" " " "The desert planet Arrakis."]
  ids_nodup := by decide
  size_lt := by decide

theorem lists_listFrom (lib : Library) : Lists lib (listFrom lib) :=
  fun _ => rfl

theorem leads_cocoLibrary :
    Leads duneLibrary cocoLibrary { changed := ["m2"], removed := [] } := by
  refine
    { changed_mem := ?_, removed_mem := ?_, removed_changed := by simp
      comma_free := by decide }
  · intro id item hnew hold
    obtain ⟨hmem, hid⟩ := item_eq_some_iff.mp hnew
    rcases List.mem_cons.mp hmem with rfl | hmem
    · exact absurd (item_eq_some_iff.mpr ⟨List.mem_singleton_self _, hid⟩) hold
    · rw [List.mem_singleton.mp hmem] at hid
      exact Option.some.inj hid ▸ List.mem_singleton_self _
  · intro id hold hnew
    obtain ⟨item, hitem⟩ := Option.ne_none_iff_exists'.mp hold
    obtain ⟨hmem, hid⟩ := item_eq_some_iff.mp hitem
    have hkept : Library.item cocoLibrary id = some item := by
      refine item_eq_some_iff.mpr ⟨?_, hid⟩
      rw [List.mem_singleton.mp hmem]
      exact List.mem_cons_self
    rw [hnew] at hkept
    cases hkept

set_option maxRecDepth 2000 in
theorem apply_agrees_cocoLibrary :
    (apply compactJson goodIo [listFrom cocoLibrary]
        { changed := ["m2"], removed := [] } duneIndex).2.index.SameMap
      (fullSync compactJson goodIo [answerFrom cocoLibrary] []
        duneIndex).2.index ↔
      Agreeable testEmbedder cocoLibrary { changed := ["m2"], removed := [] }
        duneIndex := by
  have hdune : ∀ a ∈ [answerFrom duneLibrary], Serves duneLibrary a := by
    simp [serves_answerFrom]
  have hlists : ∀ a ∈ [listFrom cocoLibrary], Lists cocoLibrary a := by
    simp [lists_listFrom]
  have hcoco : ∀ a ∈ [answerFrom cocoLibrary], Serves cocoLibrary a := by
    simp [serves_answerFrom]
  have hok : (fullSync compactJson goodIo [answerFrom duneLibrary] []
      testIndex).1 = .ok () := by decide
  have hokLive : (apply compactJson goodIo [listFrom cocoLibrary]
      { changed := ["m2"], removed := [] } duneIndex).1 = .ok () := by decide
  have hokFull : (fullSync compactJson goodIo [answerFrom cocoLibrary] []
      duneIndex).1 = .ok () := by decide
  have hnone : ∀ lib, ∀ a ∈ ([] : List Answer), Serves lib a := by simp
  exact apply_agrees_iff called_testIndex uses_goodIo hdune (hnone _) hok
    leads_cocoLibrary uses_goodIo uses_goodIo hlists hcoco (hnone _) hokLive
    hokFull

theorem leads_blankLibrary :
    Leads duneLibrary blankLibrary { changed := ["m1"], removed := [] } := by
  refine
    { changed_mem := ?_, removed_mem := ?_, removed_changed := by simp
      comma_free := by decide }
  · intro id item hnew _
    obtain ⟨hmem, hid⟩ := item_eq_some_iff.mp hnew
    rw [List.mem_singleton.mp hmem] at hid
    exact Option.some.inj hid ▸ List.mem_singleton_self _
  · intro id hold hnew
    obtain ⟨item, hitem⟩ := Option.ne_none_iff_exists'.mp hold
    obtain ⟨hmem, hid⟩ := item_eq_some_iff.mp hitem
    rw [List.mem_singleton.mp hmem] at hid
    have hkept : Library.item blankLibrary id =
        some (movie "m1" " " "The desert planet Arrakis.") :=
      item_eq_some_iff.mpr ⟨List.mem_singleton_self _, hid⟩
    rw [hnew] at hkept
    cases hkept

theorem not_sameMap_blankLibrary :
    Leads duneLibrary blankLibrary { changed := ["m1"], removed := [] } ∧
      (fullSync compactJson goodIo [answerFrom duneLibrary] [] testIndex).1 =
        .ok () ∧
      (apply compactJson goodIo [listFrom blankLibrary]
        { changed := ["m1"], removed := [] } duneIndex).1 = .ok () ∧
      (fullSync compactJson goodIo [answerFrom blankLibrary] []
        duneIndex).1 = .ok () ∧
      ¬(apply compactJson goodIo [listFrom blankLibrary]
          { changed := ["m1"], removed := [] } duneIndex).2.index.SameMap
        (fullSync compactJson goodIo [answerFrom blankLibrary] []
          duneIndex).2.index := by
  refine ⟨leads_blankLibrary, by decide, by decide, by decide, ?_⟩
  intro hsame
  exact absurd (hsame "m1") (by decide)

end AssistantHub.MediaLive
