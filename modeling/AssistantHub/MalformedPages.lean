import AssistantHub.MediaBatches
import AssistantHub.MediaMirror

namespace AssistantHub.MalformedPages

open AssistantHub.Fallible
open AssistantHub.HeaderEncoding
open AssistantHub.IndexFiles
open AssistantHub.IndexStore
open AssistantHub.JellyfinItems
open AssistantHub.JsonValue
open AssistantHub.MediaBatches
open AssistantHub.MediaDocs
open AssistantHub.MediaEffects
open AssistantHub.MediaMirror
open AssistantHub.MediaOutcome
open AssistantHub.MediaSync

/-- The page has no array of items, or no total that is a non-negative
integer. -/
def Malformed (page : Value) : Prop :=
  (page.index "Items").asArray = none ∨
    (page.index "TotalRecordCount").asU64 = none

def answersRead (types fields : String) :
    List Answer → Nat → List (Except Error Value)
  | [], _ => [.error noAnswer]
  | answer :: answers, start =>
      match answer ⟨types, fields, start, PAGE, none⟩ with
      | .error err => [.error err]
      | .ok page =>
          let start := start + (pageItems page).length
          if (pageItems page).length = 0 ∨ start ≥ pageTotal page then
            [.ok page]
          else .ok page :: answersRead types fields answers start

def Succeeded (r : Except Error Value) : Prop := ∃ page, r = .ok page

def itemsOf : Except Error Value → List Value
  | .ok page => pageItems page
  | .error _ => []

theorem fetchAll_eq (types fields : String) (answers : List Answer)
    (all : List Value) :
    ((∀ r ∈ answersRead types fields answers all.length, Succeeded r) ∧
        fetchAll types fields answers all =
          .ok (all ++ (answersRead types fields answers
            all.length).flatMap itemsOf)) ∨
      ((∃ err, .error err ∈ answersRead types fields answers all.length) ∧
        ∃ err, fetchAll types fields answers all = .error err) := by
  induction answers generalizing all with
  | nil => exact Or.inr ⟨⟨_, List.mem_singleton_self _⟩, _, rfl⟩
  | cons answer answers ih =>
      rw [fetchAll, itemsPage, answersRead]
      cases hanswer : answer ⟨types, fields, all.length, PAGE, none⟩ with
      | error err => exact Or.inr ⟨⟨err, List.mem_singleton_self _⟩, err, rfl⟩
      | ok page =>
          simp only [Except.map, List.length_append]
          split
          · refine Or.inl ⟨?_, ?_⟩
            · intro r hr
              exact ⟨page, List.mem_singleton.mp hr⟩
            · rw [List.flatMap_cons, List.flatMap_nil, List.append_nil]
              rfl
          · have hrest := ih (all ++ pageItems page)
            rw [List.length_append] at hrest
            rcases hrest with ⟨hok, hfetch⟩ | ⟨⟨err, herr⟩, hfetch⟩
            · refine Or.inl ⟨?_, ?_⟩
              · intro r hr
                rcases List.mem_cons.mp hr with rfl | hr
                · exact ⟨page, rfl⟩
                · exact hok r hr
              · rw [hfetch, List.flatMap_cons, List.append_assoc]
                rfl
            · exact Or.inr ⟨⟨err, List.mem_cons_of_mem _ herr⟩, hfetch⟩

/-- What the requests of a full comparison come back with. Episodes are only
asked for when the other fetch did not fail. -/
def syncAnswers (cfg : MediaConfig) (works episodes : List Answer) :
    List (Except Error Value) :=
  let first := answersRead "Series,Movie" WORK_FIELDS works 0
  if cfg.episodes && first.all (fun r => r.isOk) then
    first ++ answersRead "Episode" EPISODE_FIELDS episodes 0
  else first

theorem fetchItems_eq (cfg : MediaConfig) (works episodes : List Answer) :
    ((∀ r ∈ syncAnswers cfg works episodes, Succeeded r) ∧
        fetchItems cfg works episodes =
          .ok ((syncAnswers cfg works episodes).flatMap itemsOf)) ∨
      ((∃ err, .error err ∈ syncAnswers cfg works episodes) ∧
        ∃ err, fetchItems cfg works episodes = .error err) := by
  rw [fetchItems, syncAnswers]
  rcases fetchAll_eq "Series,Movie" WORK_FIELDS works [] with
    ⟨hok, hfetch⟩ | ⟨⟨err, herr⟩, err', hfetch⟩
  · have hall : (answersRead "Series,Movie" WORK_FIELDS works 0).all
        (fun r => r.isOk) = true := by
      rw [List.all_eq_true]
      intro r hr
      obtain ⟨page, rfl⟩ := hok r hr
      rfl
    rw [hfetch]
    simp only [hall, Bool.and_true]
    split
    · rcases fetchAll_eq "Episode" EPISODE_FIELDS episodes [] with
        ⟨hok', hfetch'⟩ | ⟨⟨err, herr⟩, err', hfetch'⟩
      · refine Or.inl ⟨?_, ?_⟩
        · intro r hr
          rcases List.mem_append.mp hr with hr | hr
          · exact hok r hr
          · exact hok' r hr
        · rw [hfetch', List.flatMap_append]
          rfl
      · refine Or.inr ⟨⟨err, List.mem_append_right _ herr⟩, err', ?_⟩
        rw [hfetch']
        rfl
    · exact Or.inl ⟨hok, rfl⟩
  · have hall : (answersRead "Series,Movie" WORK_FIELDS works 0).all
        (fun r => r.isOk) = false := by
      rw [List.all_eq_false]
      exact ⟨_, herr, by simp [Except.isOk, Except.toBool]⟩
    rw [hfetch]
    simp only [hall, Bool.and_false, Bool.false_eq_true, if_false]
    exact Or.inr ⟨⟨err, herr⟩, err', rfl⟩

/-- The documents of all items that the requests of a full comparison bring. -/
def syncDocs (cfg : MediaConfig) (works episodes : List Answer) : List Doc :=
  ((syncAnswers cfg works episodes).flatMap itemsOf).filterMap document

/-- The call returns an error, and the index and its saved files are as before. -/
def Unharmed (json : HeaderJson) (io : Io) (works episodes : List Answer)
    (m : MediaIndex) : Prop :=
  (∃ err, (fullSync json io works episodes m).1 = .error err) ∧
    (fullSync json io works episodes m).2.index = m.index ∧
    indexFiles (fullSync json io works episodes m).2.dir = indexFiles m.dir

/-- A request failed; or the documents that arrived name every indexed item
and some of them are new, but the first embedder call was not possible. -/
def Stopped (io : Io) (works episodes : List Answer) (m : MediaIndex) : Prop :=
  (∃ err, .error err ∈ syncAnswers m.cfg works episodes) ∨
    (∀ e ∈ m.index.entries,
        e.id ∈ (syncDocs m.cfg works episodes).map fun d => d.entry.id) ∧
      (syncDocs m.cfg works episodes).filter (needsEmbedding m.index) ≠ [] ∧
      (m.worker = false ∨ ∃ err, io.embed 0
        ((((syncDocs m.cfg works episodes).filter
          (needsEmbedding m.index)).take BATCH).map Doc.text) = .error err)

theorem goneIds_eq_nil_iff (ix : Index F32Bytes.F32) (docs : List Doc) :
    goneIds ix docs = [] ↔
      ∀ e ∈ ix.entries, e.id ∈ docs.map fun d => d.entry.id := by
  simp [goneIds, List.filter_eq_nil_iff]

theorem fullSync_of_items {json : HeaderJson} {io : Io}
    {works episodes : List Answer} {m : MediaIndex} {items : List Value}
    (h : fetchItems m.cfg works episodes = .ok items) :
    fullSync json io works episodes m =
      andThen (storeChanges json io (goneIds m.index (items.filterMap document))
        (items.filterMap document) m) fun m =>
          (.ok (), { m with lastFullSync := some io.now, state := .ready }) := by
  rw [fullSync, h]

theorem remove_nil_fst {F : Type} {ix : Index F} (h : ix.WellFormed) :
    (ix.remove []).1 = 0 :=
  Nat.eq_zero_of_not_pos fun hpos => by
    obtain ⟨_, hid, -⟩ := (remove_fst_pos_iff h []).mp hpos
    cases hid

theorem unharmed_of_stopped {json : HeaderJson} {io : Io}
    {works episodes : List Answer} {m : MediaIndex} (hsound : Sound m)
    (h : Stopped io works episodes m) : Unharmed json io works episodes m := by
  rw [Unharmed]
  rcases fetchItems_eq m.cfg works episodes with
    ⟨hok, hfetch⟩ | ⟨-, err, hfetch⟩
  · rcases h with ⟨err, herr⟩ | ⟨hnamed, hnew, hstop⟩
    · obtain ⟨page, hpage⟩ := hok _ herr
      cases hpage
    · have hgone := (goneIds_eq_nil_iff m.index _).mpr hnamed
      have htodo := todo_goneIds hsound.wellFormed
        (syncDocs m.cfg works episodes)
      rw [hgone] at htodo
      have hsame : (m.index.remove []).2 = m.index :=
        remove_of_fst_eq_zero hsound.wellFormed
          (remove_nil_fst hsound.wellFormed)
      rw [← htodo] at hnew hstop
      obtain ⟨⟨err, herr⟩, hindex, hdir⟩ := embedAndStore_stopped json
        (m := { m with index := (m.index.remove []).2 }) hnew hstop
      have hstore : storeChanges json io [] (syncDocs m.cfg works episodes) m =
          (.error err, (embedAndStore json io
            (todo m.index [] (syncDocs m.cfg works episodes))
            { m with index := (m.index.remove []).2 }).2) := by
        rw [storeChanges, andThen_of_error herr]
      have hsync : fullSync json io works episodes m =
          (.error err, (embedAndStore json io
            (todo m.index [] (syncDocs m.cfg works episodes))
            { m with index := (m.index.remove []).2 }).2) := by
        rw [fullSync_of_items hfetch]
        change andThen (storeChanges json io (goneIds m.index
          (syncDocs m.cfg works episodes)) (syncDocs m.cfg works episodes) m) _ = _
        rw [hgone, hstore, andThen_of_error rfl]
      rw [hsync]
      exact ⟨⟨err, rfl⟩, hindex.trans hsame, congrArg indexFiles hdir⟩
  · rw [fullSync, hfetch]
    exact ⟨⟨err, rfl⟩, rfl, rfl⟩

theorem stopped_of_unharmed {json : HeaderJson} {io : Io}
    {works episodes : List Answer} {m : MediaIndex} (hsound : Sound m)
    (hsized : WellSized io m.cfg.dims)
    (h : Unharmed json io works episodes m) : Stopped io works episodes m := by
  obtain ⟨⟨err, herr⟩, hindex, -⟩ := h
  rcases fetchItems_eq m.cfg works episodes with
    ⟨hok, hfetch⟩ | ⟨hfailed, -⟩
  · right
    have hsync : fullSync json io works episodes m =
        andThen (storeChanges json io
          (goneIds m.index (syncDocs m.cfg works episodes))
          (syncDocs m.cfg works episodes) m) fun m =>
            (.ok (), { m with lastFullSync := some io.now, state := .ready }) :=
      fullSync_of_items hfetch
    -- The bookkeeping after the store leaves the index alone.
    have hstored : (storeChanges json io
        (goneIds m.index (syncDocs m.cfg works episodes))
        (syncDocs m.cfg works episodes) m).2.index = m.index := by
      rw [hsync] at herr hindex
      cases hresult : (storeChanges json io
          (goneIds m.index (syncDocs m.cfg works episodes))
          (syncDocs m.cfg works episodes) m).1 with
      | error err' =>
          rw [andThen_of_error hresult] at hindex
          exact hindex
      | ok =>
          rw [andThen_of_ok hresult] at herr
          cases herr
    have hgone : goneIds m.index (syncDocs m.cfg works episodes) = [] := by
      rw [List.eq_nil_iff_forall_not_mem]
      intro id hid
      obtain ⟨hfind, hdocs⟩ := (mem_goneIds hsound.wellFormed).mp hid
      have hlost := find_eq_none_storeChanges hsound json io hid hdocs
      rw [hstored] at hlost
      exact hfind hlost
    have htodo := todo_goneIds hsound.wellFormed
      (syncDocs m.cfg works episodes)
    rw [hgone] at htodo hstored hsync
    have hnew : todo m.index [] (syncDocs m.cfg works episodes) ≠ [] := by
      intro hnil
      rw [hsync, storeChanges_of_no_work hsound.wellFormed
        (remove_nil_fst hsound.wellFormed) hnil, andThen_of_ok rfl] at herr
      cases herr
    refine ⟨(goneIds_eq_nil_iff _ _).mp hgone, htodo ▸ hnew, ?_⟩
    rw [← htodo]
    by_contra hgo
    rw [not_or, not_exists, Bool.not_eq_false] at hgo
    obtain ⟨vectors, hembed⟩ := exists_ok_of_ne_error hgo.2
    obtain ⟨d, hd, v, hfind⟩ :=
      exists_replaced_storeChanges json hsound hsized hgo.1 hnew hembed
    rw [hstored] at hfind
    have hneeds : needsEmbedding m.index d = true := by
      rw [htodo] at hd
      exact (List.mem_filter.mp hd).2
    rw [(needsEmbedding_eq_false_iff hsound.wellFormed d).mpr
      ⟨_, hfind, rfl⟩] at hneeds
    cases hneeds
  · exact Or.inl hfailed

/-- A malformed page does no harm exactly when the same call is stopped by
something else before it changes the index. -/
theorem unharmed_iff_stopped {json : HeaderJson} {io : Io}
    {works episodes : List Answer} {m : MediaIndex} (hsound : Sound m)
    (hsized : WellSized io m.cfg.dims) :
    ((∃ page, .ok page ∈ syncAnswers m.cfg works episodes ∧ Malformed page) →
        Unharmed json io works episodes m) ↔
      (∀ page, .ok page ∈ syncAnswers m.cfg works episodes →
        ¬Malformed page) ∨ Stopped io works episodes m := by
  constructor
  · intro h
    by_cases hbad : ∃ page, .ok page ∈ syncAnswers m.cfg works episodes ∧
        Malformed page
    · exact Or.inr (stopped_of_unharmed hsound hsized (h hbad))
    · refine Or.inl ?_
      intro page hpage hmalformed
      exact hbad ⟨page, hpage, hmalformed⟩
  · rintro (hgood | hstopped) ⟨page, hpage, hmalformed⟩
    · exact absurd hmalformed (hgood page hpage)
    · exact unharmed_of_stopped hsound hstopped

theorem wellSized_goodIo : WellSized goodIo duneIndex.cfg.dims := by
  rw [show duneIndex.cfg = testConfig from congrArg Prod.fst frame_duneIndex]
  exact wellSized_of_uses uses_goodIo

/-- A body without items and without a total. -/
def emptyBody : Value := .object []

theorem unharmed_iff_stopped_emptyBody :
    ((∃ page, .ok page ∈ syncAnswers duneIndex.cfg
          [fun _ => .ok emptyBody] [] ∧ Malformed page) →
        Unharmed compactJson goodIo [fun _ => .ok emptyBody] [] duneIndex) ↔
      (∀ page, .ok page ∈ syncAnswers duneIndex.cfg
          [fun _ => .ok emptyBody] [] → ¬Malformed page) ∨
        Stopped goodIo [fun _ => .ok emptyBody] [] duneIndex :=
  unharmed_iff_stopped called_duneIndex.invariant.1 wellSized_goodIo

set_option maxRecDepth 2000 in
theorem emptyBody_harms :
    .ok emptyBody ∈ syncAnswers duneIndex.cfg [fun _ => .ok emptyBody] [] ∧
      Malformed emptyBody ∧ duneIndex.index.find "m1" ≠ none ∧
      (fullSync compactJson goodIo [fun _ => .ok emptyBody] []
        duneIndex).2.index.find "m1" = none ∧
      ¬Unharmed compactJson goodIo [fun _ => .ok emptyBody] [] duneIndex := by
  have hok : (fullSync compactJson goodIo [fun _ => .ok emptyBody] []
      duneIndex).1 = .ok () := by decide
  refine ⟨List.mem_singleton_self _, Or.inl rfl, by decide, by decide, ?_⟩
  rintro ⟨⟨err, herr⟩, -⟩
  rw [hok] at herr
  cases herr

end AssistantHub.MalformedPages
