import AssistantHub.MediaLive

namespace AssistantHub.MediaPaging

open AssistantHub.HeaderEncoding
open AssistantHub.IndexStore
open AssistantHub.JellyfinItems
open AssistantHub.JsonValue
open AssistantHub.LibraryDocs
open AssistantHub.MediaDocs
open AssistantHub.MediaLive
open AssistantHub.MediaMirror
open AssistantHub.MediaOutcome
open AssistantHub.MediaSync

/-- What Jellyfin has when a request arrives, and how many items it puts on a
page then. -/
structure Listing where
  lib : Library
  size : Nat
  size_le : size ≤ PAGE

def Listing.answer (l : Listing) : Answer := fun req =>
  .ok (l.lib.page l.size req)

def Listing.pageOf (l : Listing) (types : String) (start : Nat) : List Value :=
  ((l.lib.matching types none).drop start).take l.size

/-- The page is not the last one: it has items, and more of them follow. -/
def Listing.HasMore (l : Listing) (types : String) (start : Nat) : Prop :=
  0 < l.size ∧ start + l.size < (l.lib.matching types none).length

instance (l : Listing) (types : String) (start : Nat) :
    Decidable (l.HasMore types start) :=
  inferInstanceAs (Decidable (_ ∧ _))

/-- The items that were read before the request number `i`, when all pages
before it were full. -/
def readBefore : List Listing → Nat → Nat
  | _, 0 => 0
  | [], _ + 1 => 0
  | l :: listings, i + 1 => l.size + readBefore listings i

/-- The item is on the page of one of the requests of a fetch that goes on
from `start`, and no request before it ended the fetch. -/
def OnPage (types : String) (listings : List Listing) (start : Nat)
    (item : Value) : Prop :=
  ∃ (i : Nat) (l : Listing), listings[i]? = some l ∧
    (∀ j < i, ∀ l' : Listing, listings[j]? = some l' →
      l'.HasMore types (start + readBefore listings j)) ∧
    item ∈ l.pageOf types (start + readBefore listings i)

@[simp] theorem readBefore_zero (listings : List Listing) :
    readBefore listings 0 = 0 := by
  rw [readBefore]

@[simp] theorem readBefore_cons_succ (l : Listing) (listings : List Listing)
    (i : Nat) :
    readBefore (l :: listings) (i + 1) = l.size + readBefore listings i := by
  rw [readBefore]

theorem onPage_cons {types : String} {l : Listing} {listings : List Listing}
    {start : Nat} {item : Value} :
    OnPage types (l :: listings) start item ↔
      item ∈ l.pageOf types start ∨
        l.HasMore types start ∧ OnPage types listings (start + l.size) item := by
  constructor
  · rintro ⟨i, l', hl, hmore, hitem⟩
    cases i with
    | zero =>
        obtain rfl : l = l' := by simpa using hl
        exact Or.inl hitem
    | succ i =>
        refine Or.inr ⟨hmore 0 (Nat.succ_pos i) l rfl, i, l', by simpa using hl,
          ?_, ?_⟩
        · intro j hj l'' hl''
          have := hmore (j + 1) (Nat.succ_lt_succ hj) l'' (by simpa using hl'')
          rwa [readBefore_cons_succ, ← Nat.add_assoc] at this
        · rwa [readBefore_cons_succ, ← Nat.add_assoc] at hitem
  · rintro (hitem | ⟨hfirst, i, l', hl, hmore, hitem⟩)
    · exact ⟨0, l, rfl, fun j hj => absurd hj (Nat.not_lt_zero j), hitem⟩
    · refine ⟨i + 1, l', by simpa using hl, ?_, ?_⟩
      · intro j hj l'' hl''
        cases j with
        | zero =>
            obtain rfl : l = l'' := by simpa using hl''
            exact hfirst
        | succ j =>
            rw [readBefore_cons_succ, ← Nat.add_assoc]
            exact hmore j (Nat.lt_of_succ_lt_succ hj) l'' (by simpa using hl'')
      · rwa [readBefore_cons_succ, ← Nat.add_assoc]

theorem pageItems_answer (l : Listing) (types fields : String) (start : Nat) :
    pageItems (l.lib.page l.size ⟨types, fields, start, PAGE, none⟩) =
      (l.pageOf types start).map (sent fields) := by
  rw [pageItems_page, Nat.min_eq_right l.size_le, Listing.pageOf]

theorem length_pageOf (l : Listing) (types : String) (start : Nat) :
    (l.pageOf types start).length =
      min l.size ((l.lib.matching types none).length - start) := by
  rw [Listing.pageOf, List.length_take, List.length_drop]

theorem length_append_pageOf {l : Listing} {types fields : String}
    {all : List Value} (hmore : l.HasMore types all.length) :
    (all ++ (l.pageOf types all.length).map (sent fields)).length =
      all.length + l.size := by
  obtain ⟨-, hlong⟩ := hmore
  rw [List.length_append, List.length_map, length_pageOf]
  omega

theorem fetchAll_cons {types fields : String} {l : Listing}
    {answers : List Answer} {all : List Value} :
    fetchAll types fields (l.answer :: answers) all =
      if l.HasMore types all.length then
        fetchAll types fields answers
          (all ++ (l.pageOf types all.length).map (sent fields))
      else .ok (all ++ (l.pageOf types all.length).map (sent fields)) := by
  have htotal :=
    pageTotal_page l.lib l.size ⟨types, fields, all.length, PAGE, none⟩
  simp only [fetchAll, itemsPage, Listing.answer, Except.map,
    pageItems_answer, htotal, List.length_append, List.length_map,
    length_pageOf]
  -- A page that is not full reaches the end of the list, or is empty.
  by_cases hmore : l.HasMore types all.length
  · rw [if_pos hmore]
    obtain ⟨hsize, hlong⟩ := hmore
    rw [if_neg (by omega)]
  · rw [if_neg hmore]
    rw [Listing.HasMore] at hmore
    rw [if_pos (by omega)]

theorem mem_fetchAll {types fields : String} {listings : List Listing}
    {all items : List Value}
    (hok : fetchAll types fields (listings.map Listing.answer) all = .ok items)
    (x : Value) :
    x ∈ items ↔ x ∈ all ∨ ∃ item, OnPage types listings all.length item ∧
      sent fields item = x := by
  induction listings generalizing all with
  | nil => cases hok
  | cons l listings ih =>
      rw [List.map_cons, fetchAll_cons] at hok
      simp only [onPage_cons]
      split at hok
      · rename_i hmore
        rw [ih hok, length_append_pageOf hmore, List.mem_append, List.mem_map,
          or_assoc]
        refine or_congr_right ?_
        constructor
        · rintro (⟨item, hitem, hx⟩ | ⟨item, hitem, hx⟩)
          · exact ⟨item, Or.inl hitem, hx⟩
          · exact ⟨item, Or.inr ⟨hmore, hitem⟩, hx⟩
        · rintro ⟨item, hitem | ⟨-, hitem⟩, hx⟩
          · exact Or.inl ⟨item, hitem, hx⟩
          · exact Or.inr ⟨item, hitem, hx⟩
      · rename_i hmore
        obtain rfl := Except.ok.inj hok
        rw [List.mem_append, List.mem_map]
        refine or_congr_right ?_
        constructor
        · rintro ⟨item, hitem, hx⟩
          exact ⟨item, Or.inl hitem, hx⟩
        · rintro ⟨item, hitem | ⟨hlong, -⟩, hx⟩
          · exact ⟨item, hitem, hx⟩
          · exact absurd hlong hmore

theorem mem_of_onPage {types : String} {listings : List Listing} {start : Nat}
    {item : Value} (h : OnPage types listings start item) :
    ∃ l ∈ listings, item ∈ l.lib.matching types none := by
  obtain ⟨i, l, hl, -, hitem⟩ := h
  exact ⟨l, List.mem_of_getElem? hl,
    List.mem_of_mem_drop (List.mem_of_mem_take hitem)⟩

theorem document_onPage {types fields : String} (hcovers : Covers types fields)
    {listings : List Listing} {start : Nat} {item : Value}
    (h : OnPage types listings start item) :
    document (sent fields item) = document item := by
  obtain ⟨l, -, hitem⟩ := mem_of_onPage h
  obtain ⟨t, ht, htype⟩ := mem_matching_type hitem
  apply document_sent
  intro kind hkind
  rw [htype, Option.bind_some] at hkind
  exact hcovers t ht kind hkind

/-- The documents with the ID of an item that stays in the library come from
the pages that hold the item. -/
theorem id_mem_fetchAll_iff {types fields : String}
    (hcovers : Covers types fields) {listings : List Listing}
    {items : List Value}
    (hok : fetchAll types fields (listings.map Listing.answer) [] = .ok items)
    {item : Value} {id : String} (hid : itemId item = some id)
    (hthere : ∀ l ∈ listings, item ∈ l.lib.items) :
    (∃ d ∈ items.filterMap document, d.entry.id = id) ↔
      (∃ d, document item = some d) ∧ OnPage types listings 0 item := by
  have hmem := mem_fetchAll hok
  constructor
  · rintro ⟨d, hd, rfl⟩
    obtain ⟨x, hx, hdoc⟩ := List.mem_filterMap.mp hd
    rcases (hmem x).mp hx with hnil | ⟨item', hpage, rfl⟩
    · cases hnil
    · rw [document_onPage hcovers hpage] at hdoc
      obtain ⟨l, hl, hitem'⟩ := mem_of_onPage hpage
      obtain rfl := item_eq_of_id_eq (hthere l hl)
        (mem_matching.mp hitem').1 hid (id_document hdoc)
      exact ⟨⟨d, hdoc⟩, hpage⟩
  · rintro ⟨⟨d, hdoc⟩, hpage⟩
    refine ⟨d, List.mem_filterMap.mpr ⟨sent fields item, ?_, ?_⟩, ?_⟩
    · exact (hmem _).mpr (Or.inr ⟨item, hpage, rfl⟩)
    · rw [document_onPage hcovers hpage, hdoc]
    · exact Option.some.inj ((id_document hdoc).symm.trans hid)

/-- One of the fetches of a full comparison gets the item. -/
def Delivered (cfg : MediaConfig) (works episodes : List Listing)
    (item : Value) : Prop :=
  OnPage "Series,Movie" works 0 item ∨
    cfg.episodes = true ∧ OnPage "Episode" episodes 0 item

theorem id_mem_fetchItems_iff {cfg : MediaConfig} {works episodes : List Listing}
    {items : List Value}
    (hok : fetchItems cfg (works.map Listing.answer)
      (episodes.map Listing.answer) = .ok items)
    {item : Value} {id : String} (hid : itemId item = some id)
    (hthere : ∀ l ∈ works ++ episodes, item ∈ l.lib.items) :
    id ∈ (items.filterMap document).map (fun d => d.entry.id) ↔
      (∃ d, document item = some d) ∧ Delivered cfg works episodes item := by
  have hworks := fun l hl => hthere l (List.mem_append_left _ hl)
  have hepisodes := fun l hl => hthere l (List.mem_append_right _ hl)
  rw [fetchItems] at hok
  rw [List.mem_map]
  cases hw : fetchAll "Series,Movie" WORK_FIELDS (works.map Listing.answer) [] with
  | error err =>
      rw [hw] at hok
      cases hok
  | ok found =>
      have hfound := id_mem_fetchAll_iff covers_works hw hid hworks
      rw [hw] at hok
      simp only at hok
      split at hok
      · rename_i hepisode
        cases he : fetchAll "Episode" EPISODE_FIELDS
            (episodes.map Listing.answer) [] with
        | error err =>
            rw [he] at hok
            cases hok
        | ok found' =>
            have hfound' := id_mem_fetchAll_iff covers_episodes he hid hepisodes
            rw [he] at hok
            obtain rfl := Except.ok.inj hok
            simp only [List.filterMap_append, List.mem_append, or_and_right,
              exists_or, hfound, hfound', Delivered, hepisode, true_and,
              and_or_left]
      · rename_i hepisode
        obtain rfl := Except.ok.inj hok
        rw [hfound, Delivered]
        simp [hepisode]

theorem lost_of_not_delivered {json : HeaderJson} {io : Io} {m : MediaIndex}
    (hsound : Sound m) {works episodes : List Listing}
    (hok : (fullSync json io (works.map Listing.answer)
      (episodes.map Listing.answer) m).1 = .ok ())
    {item : Value} {id : String} (hid : itemId item = some id)
    (hindexed : m.index.find id ≠ none)
    (hthere : ∀ l ∈ works ++ episodes, item ∈ l.lib.items)
    (hlost : ¬((∃ d, document item = some d) ∧
      Delivered m.cfg works episodes item)) :
    (fullSync json io (works.map Listing.answer) (episodes.map Listing.answer)
      m).2.index.find id = none := by
  obtain ⟨items, hitems, -, hsync⟩ := fullSync_of_ok hok
  rw [← id_mem_fetchItems_iff hitems hid hthere] at hlost
  rw [hsync]
  exact find_eq_none_storeChanges hsound json io
    ((mem_goneIds hsound.wellFormed).mpr ⟨hindexed, hlost⟩) hlost

/-- An indexed item that is in the library at each request of a successful
full comparison stays in the index exactly when it has a document and one of
the pages holds it. -/
theorem kept_iff_delivered {json : HeaderJson} {io : Io} {m : MediaIndex}
    (hsound : Sound m) {works episodes : List Listing}
    (hok : (fullSync json io (works.map Listing.answer)
      (episodes.map Listing.answer) m).1 = .ok ())
    {item : Value} {id : String} (hid : itemId item = some id)
    (hindexed : m.index.find id ≠ none)
    (hthere : ∀ l ∈ works ++ episodes, item ∈ l.lib.items) :
    (fullSync json io (works.map Listing.answer) (episodes.map Listing.answer)
        m).2.index.find id ≠ none ↔
      (∃ d, document item = some d) ∧
        Delivered m.cfg works episodes item := by
  constructor
  · intro hkept
    by_contra hlost
    exact hkept (lost_of_not_delivered hsound hok hid hindexed hthere hlost)
  · intro hdelivered
    obtain ⟨items, hitems, -, hsync⟩ := fullSync_of_ok hok
    rw [← id_mem_fetchItems_iff hitems hid hthere] at hdelivered
    rw [hsync]
    exact find_ne_none_storeChanges hsound json io _
      (fun h => ((mem_goneIds hsound.wellFormed).mp h).2 hdelivered) hindexed

theorem itemId_dune : itemId dune = some "m1" := rfl

theorem sound_duneIndex : Sound duneIndex := called_duneIndex.invariant.1

/-- Three movies, one on a page. -/
def threeListing : Listing where
  lib := threeMovies
  size := 1
  size_le := by decide

/-- The same library when the second movie is deleted. -/
def withoutSecond : Listing where
  lib :=
    { items := [dune, movie "m3" "Up" ""]
      ids_nodup := by decide
      size_lt := by decide }
  size := 1
  size_le := by decide

set_option maxRecDepth 4000 in
theorem kept_iff_delivered_dune :
    (fullSync compactJson goodIo [threeListing.answer, withoutSecond.answer] []
        duneIndex).2.index.find "m1" ≠ none ↔
      (∃ d, document dune = some d) ∧
        Delivered duneIndex.cfg [threeListing, withoutSecond] [] dune := by
  have hok : (fullSync compactJson goodIo
      ([threeListing, withoutSecond].map Listing.answer)
      (([] : List Listing).map Listing.answer) duneIndex).1 = .ok () := by decide
  have hkept := kept_iff_delivered sound_duneIndex hok itemId_dune (by decide)
    (by simp [threeListing, threeMovies, withoutSecond])
  rw [List.map_nil] at hkept
  exact hkept

def fillers : List Value :=
  (List.range PAGE).map fun i =>
    movie (String.ofList (List.replicate i 'f')) "Filler" ""

theorem filterMap_itemId_fillers :
    fillers.filterMap itemId =
      (List.range PAGE).map fun i => String.ofList (List.replicate i 'f') := by
  rw [fillers, List.filterMap_map, ← List.filterMap_eq_map]
  rfl

theorem nodup_ids_fillers : ((fillers ++ [dune]).filterMap itemId).Nodup := by
  rw [List.filterMap_append, filterMap_itemId_fillers]
  refine List.Nodup.append ?_ (by decide) ?_
  · refine List.Nodup.map ?_ List.nodup_range
    intro i j h
    have hlength := congrArg (fun s : String => s.toList.length) h
    simpa using hlength
  · rintro id hid hdune
    obtain ⟨i, -, rfl⟩ := List.mem_map.mp hid
    have hm : String.ofList (List.replicate i 'f') = "m1" :=
      List.mem_singleton.mp hdune
    have hletter : 'm' ∈ List.replicate i 'f' := by
      rw [← String.toList_ofList (l := List.replicate i 'f'), hm]
      decide
    exact absurd (List.eq_of_mem_replicate hletter) (by decide)

theorem length_fillers : fillers.length = PAGE := by
  rw [fillers, List.length_map, List.length_range]

/-- The first request: the movie is behind the first page. -/
def firstListing : Listing where
  lib :=
    { items := fillers ++ [dune]
      ids_nodup := nodup_ids_fillers
      size_lt := by
        rw [List.length_append, length_fillers]
        decide }
  size := PAGE
  size_le := Nat.le_refl PAGE

/-- The second request: the library is without its first movie. -/
def secondListing : Listing where
  lib :=
    { items := fillers.tail ++ [dune]
      ids_nodup := ((fillers.tail_sublist.append_right [dune]).filterMap
        itemId).nodup nodup_ids_fillers
      size_lt := by
        rw [List.length_append, List.length_tail, length_fillers]
        decide }
  size := PAGE
  size_le := Nat.le_refl PAGE

theorem matching_of_movies {lib : Library}
    (h : ∀ item ∈ lib.items, itemType item = some "Movie") :
    lib.matching "Series,Movie" none = lib.items := by
  have htypes : splitComma "Series,Movie" = ["Series", "Movie"] := by decide
  rw [Library.matching, List.filter_eq_self]
  intro item hitem
  simp [h item hitem, htypes]

theorem itemType_of_mem_fillers {item : Value} (h : item ∈ fillers ++ [dune]) :
    itemType item = some "Movie" := by
  rcases List.mem_append.mp h with h | h
  · obtain ⟨i, -, rfl⟩ := List.mem_map.mp h
    rfl
  · rw [List.mem_singleton.mp h]
    rfl

theorem matching_firstListing :
    firstListing.lib.matching "Series,Movie" none = fillers ++ [dune] :=
  matching_of_movies fun _ => itemType_of_mem_fillers

theorem matching_secondListing :
    secondListing.lib.matching "Series,Movie" none = fillers.tail ++ [dune] :=
  matching_of_movies fun _ h => itemType_of_mem_fillers
    ((fillers.tail_sublist.append_right [dune]).subset h)

theorem hasMore_firstListing : firstListing.HasMore "Series,Movie" 0 := by
  refine ⟨by decide, ?_⟩
  rw [matching_firstListing, List.length_append, length_fillers]
  decide

theorem not_hasMore_secondListing {start : Nat} :
    ¬secondListing.HasMore "Series,Movie" start := by
  rintro ⟨-, hlong⟩
  rw [matching_secondListing, List.length_append, List.length_tail,
    length_fillers] at hlong
  have hsize : secondListing.size = 1000 := rfl
  have hpage : PAGE = 1000 := rfl
  simp only [hsize, hpage, List.length_singleton] at hlong
  omega

theorem not_onPage_dune :
    ¬OnPage "Series,Movie" [firstListing, secondListing] 0 dune := by
  rw [onPage_cons, onPage_cons]
  rintro (hfirst | ⟨-, hsecond | ⟨hmore, -⟩⟩)
  · have hsize : firstListing.size = fillers.length := length_fillers.symm
    rw [Listing.pageOf, matching_firstListing, List.drop_zero, hsize,
      List.take_left] at hfirst
    have hnodup := nodup_ids_fillers
    rw [List.filterMap_append] at hnodup
    exact (List.disjoint_of_nodup_append hnodup)
      (List.mem_filterMap.mpr ⟨dune, hfirst, rfl⟩) (List.mem_singleton_self _)
  · rw [Listing.pageOf, matching_secondListing, List.drop_of_length_le] at hsecond
    · cases hsecond
    · rw [List.length_append, List.length_tail, length_fillers]
      decide
  · exact not_hasMore_secondListing hmore

theorem fetchItems_listings :
    ∃ items, fetchItems testConfig
      ([firstListing, secondListing].map Listing.answer) [] = .ok items := by
  obtain ⟨items, hfetch⟩ : ∃ items, fetchAll "Series,Movie" WORK_FIELDS
      ([firstListing, secondListing].map Listing.answer) [] = .ok items := by
    rw [List.map_cons, fetchAll_cons, List.length_nil,
      if_pos hasMore_firstListing, List.map_cons, fetchAll_cons,
      if_neg not_hasMore_secondListing]
    exact ⟨_, rfl⟩
  refine ⟨items, ?_⟩
  rw [fetchItems, hfetch]
  rfl

/-- A movie that is indexed and in the library all the time is removed when an
earlier movie is deleted between the two requests. -/
theorem dune_lost :
    duneIndex.index.find "m1" ≠ none ∧
      (∀ l ∈ [firstListing, secondListing], dune ∈ l.lib.items) ∧
      (fullSync compactJson goodIo
        ([firstListing, secondListing].map Listing.answer) [] duneIndex).1 =
          .ok () ∧
      (fullSync compactJson goodIo
        ([firstListing, secondListing].map Listing.answer) []
          duneIndex).2.index.find "m1" = none := by
  obtain ⟨items, hitems⟩ := fetchItems_listings
  have hcfg : duneIndex.cfg = testConfig := congrArg Prod.fst frame_duneIndex
  have hdims : duneIndex.index.dims = testConfig.dims := by
    rw [sound_duneIndex.dims_eq, hcfg]
  have hindexed : duneIndex.index.find "m1" ≠ none := by decide
  have hthere : ∀ l ∈ [firstListing, secondListing], dune ∈ l.lib.items := by
    simp [firstListing, secondListing]
  have hok : (fullSync compactJson goodIo
      ([firstListing, secondListing].map Listing.answer)
      (([] : List Listing).map Listing.answer) duneIndex).1 = .ok () :=
    fullSync_of_works works_goodIo (congrArg Prod.snd frame_duneIndex)
      sound_duneIndex.wellFormed hdims (hcfg.symm ▸ hitems)
  have hlost : ¬((∃ d, document dune = some d) ∧
      Delivered duneIndex.cfg [firstListing, secondListing] [] dune) := by
    rintro ⟨-, hpage | ⟨hepisodes, -⟩⟩
    · exact not_onPage_dune hpage
    · rw [hcfg] at hepisodes
      exact absurd hepisodes (by decide)
  have hgone := lost_of_not_delivered sound_duneIndex hok itemId_dune hindexed
    (by simpa using hthere) hlost
  rw [List.map_nil] at hgone
  exact ⟨hindexed, hthere, hok, hgone⟩

end AssistantHub.MediaPaging
