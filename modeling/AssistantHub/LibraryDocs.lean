import AssistantHub.MediaSync

namespace AssistantHub.LibraryDocs

open AssistantHub.Chunks
open AssistantHub.IndexStore
open AssistantHub.JellyfinItems
open AssistantHub.JsonValue
open AssistantHub.MediaDocs
open AssistantHub.MediaSync

def libraryDocs (cfg : MediaConfig) (lib : Library) : List Doc :=
  (lib.matching "Series,Movie" none).filterMap document ++
    if cfg.episodes then (lib.matching "Episode" none).filterMap document
    else []

/-- Pages of any sizes put together are all items of the requested types. -/
theorem fetchAll_of_serves {lib : Library} {types fields : String}
    {answers : List Answer} (hserves : ∀ answer ∈ answers, Serves lib answer)
    {all : List Value} (rest : List Value) {items : List Value}
    (hall : all ++ rest = (lib.matching types none).map (sent fields))
    (hok : fetchAll types fields answers all = .ok items) :
    items = (lib.matching types none).map (sent fields) := by
  induction answers generalizing all rest with
  | nil => cases hok
  | cons answer answers ih =>
      obtain ⟨cap, hcap, hpage⟩ := hserves answer List.mem_cons_self
        ⟨types, fields, all.length, PAGE, none⟩
      have htotal := pageTotal_page lib cap
        ⟨types, fields, all.length, PAGE, none⟩
      have hitems : pageItems (lib.page cap
          ⟨types, fields, all.length, PAGE, none⟩) =
          rest.take (min PAGE cap) := by
        have hdrop : ((lib.matching types none).map (sent fields)).drop
            all.length = rest := by
          rw [← hall, List.drop_left]
        rw [pageItems_page, List.map_take, List.map_drop, hdrop]
      have hcount : (lib.matching types none).length =
          all.length + rest.length := by
        rw [← List.length_append, hall, List.length_map]
      have hsize : 0 < min PAGE cap := Nat.lt_min.mpr ⟨by decide, hcap⟩
      simp only [fetchAll, itemsPage, hpage, Except.map, hitems, htotal,
        hcount] at hok
      split at hok
      · rename_i hdone
        obtain rfl := Except.ok.inj hok
        have hrest : rest.take (min PAGE cap) = rest := by
          rcases hdone with hzero | htotal
          · rw [List.length_take] at hzero
            have : rest = [] := List.eq_nil_of_length_eq_zero (by omega)
            rw [this, List.take_nil]
          · rw [List.length_append, List.length_take] at htotal
            exact List.take_of_length_le (by omega)
        rw [hrest, hall]
      · refine ih (fun a ha => hserves a (List.mem_cons_of_mem _ ha))
          (rest.drop (min PAGE cap)) ?_ hok
        rw [List.append_assoc, List.take_append_drop, hall]

/-- The request names every optional field that the documents of its items
read. -/
def Covers (types fields : String) : Prop :=
  ∀ t ∈ splitComma types, ∀ kind, Kind.fromJellyfin t = some kind →
    ∀ key ∈ readFields kind, key ∈ optionalFields → key ∈ splitComma fields

instance (types fields : String) : Decidable (Covers types fields) :=
  List.decidableBAll _ _

theorem filterMap_document_sent {types fields : String}
    (hcovers : Covers types fields) {items : List Value}
    (h : ∀ item ∈ items, ∃ t ∈ splitComma types, itemType item = some t) :
    (items.map (sent fields)).filterMap document = items.filterMap document := by
  rw [List.filterMap_map]
  apply List.filterMap_congr
  intro item hitem
  obtain ⟨t, ht, htype⟩ := h item hitem
  apply document_sent
  intro kind hkind
  rw [htype, Option.bind_some] at hkind
  exact hcovers t ht kind hkind

theorem covers_works : Covers "Series,Movie" WORK_FIELDS := by decide

theorem covers_episodes : Covers "Episode" EPISODE_FIELDS := by decide

theorem covers_changes (cfg : MediaConfig) :
    Covers (changeTypes cfg) changeFields := by
  rw [changeTypes]
  split <;> decide

theorem mem_matching_type {lib : Library} {types : String}
    {ids : Option String} {item : Value} (h : item ∈ lib.matching types ids) :
    ∃ t ∈ splitComma types, itemType item = some t :=
  (mem_matching.mp h).2.1

theorem fetchItems_of_serves {cfg : MediaConfig} {lib : Library}
    {works episodes : List Answer} (hworks : ∀ a ∈ works, Serves lib a)
    (hepisodes : ∀ a ∈ episodes, Serves lib a) {items : List Value}
    (hok : fetchItems cfg works episodes = .ok items) :
    items.filterMap document = libraryDocs cfg lib := by
  rw [fetchItems] at hok
  cases hw : fetchAll "Series,Movie" WORK_FIELDS works [] with
  | error err =>
      rw [hw] at hok
      cases hok
  | ok found =>
      rw [hw] at hok
      have hfound := fetchAll_of_serves hworks _ (List.nil_append _) hw
      have hdocs : found.filterMap document =
          (lib.matching "Series,Movie" none).filterMap document := by
        rw [hfound]
        exact filterMap_document_sent covers_works fun _ => mem_matching_type
      rw [libraryDocs]
      simp only at hok
      split at hok
      · rename_i hepisode
        cases he : fetchAll "Episode" EPISODE_FIELDS episodes [] with
        | error err =>
            rw [he] at hok
            cases hok
        | ok found' =>
            rw [he] at hok
            have hfound' :=
              fetchAll_of_serves hepisodes _ (List.nil_append _) he
            obtain rfl := Except.ok.inj hok
            rw [List.filterMap_append, hdocs, if_pos hepisode, hfound',
              filterMap_document_sent covers_episodes fun _ => mem_matching_type]
      · rename_i hepisode
        obtain rfl := Except.ok.inj hok
        rw [hdocs, if_neg hepisode, List.append_nil]

/-- The kinds that are indexed: episodes only if they are configured. -/
def Indexed (cfg : MediaConfig) (kind : Kind) : Prop :=
  kind = .episode → cfg.episodes = true

theorem document_type {item : Value} {d : Doc} (h : document item = some d) :
    ∃ t, itemType item = some t ∧ Kind.fromJellyfin t = some d.entry.kind :=
  Option.bind_eq_some_iff.mp (kind_document h)

theorem mem_libraryDocs {cfg : MediaConfig} {lib : Library} {d : Doc} :
    d ∈ libraryDocs cfg lib ↔
      ∃ item ∈ lib.items, document item = some d ∧ Indexed cfg d.entry.kind := by
  have hworks : splitComma "Series,Movie" = ["Series", "Movie"] := by decide
  have hepisodes : splitComma "Episode" = ["Episode"] := by decide
  have hmem : ∀ types, d ∈ (lib.matching types none).filterMap document ↔
      ∃ item ∈ lib.items, (∃ t ∈ splitComma types, itemType item = some t) ∧
        document item = some d := by
    intro types
    simp only [List.mem_filterMap, mem_matching, reduceCtorEq, false_implies,
      implies_true, and_true, and_assoc]
  rw [libraryDocs, List.mem_append, hmem, hworks]
  constructor
  · rintro (⟨item, hitem, ⟨t, ht, htype⟩, hd⟩ | hd)
    · refine ⟨item, hitem, hd, ?_⟩
      intro hkind
      obtain ⟨t', htype', hfrom⟩ := document_type hd
      obtain rfl : t = t' := Option.some.inj (htype.symm.trans htype')
      rw [hkind] at hfrom
      rcases List.mem_cons.mp ht with rfl | ht
      · exact absurd hfrom (by decide)
      · obtain rfl := List.mem_singleton.mp ht
        exact absurd hfrom (by decide)
    · split at hd
      · rename_i hepisode
        obtain ⟨item, hitem, -, hd⟩ := (hmem _).mp hd
        exact ⟨item, hitem, hd, fun _ => hepisode⟩
      · cases hd
  · rintro ⟨item, hitem, hd, hindexed⟩
    obtain ⟨t, htype, hfrom⟩ := document_type hd
    rcases fromJellyfin_eq_some hfrom with ⟨rfl, -⟩ | ⟨rfl, -⟩ | ⟨rfl, hkind⟩
    · exact Or.inl ⟨item, hitem, ⟨_, by simp, htype⟩, hd⟩
    · exact Or.inl ⟨item, hitem, ⟨_, by simp, htype⟩, hd⟩
    · rw [if_pos (hindexed hkind), hmem, hepisodes]
      exact Or.inr ⟨item, hitem, ⟨_, by simp, htype⟩, hd⟩

theorem item_eq_of_id_eq {lib : Library} {item item' : Value} {id : String}
    (h : item ∈ lib.items) (h' : item' ∈ lib.items)
    (hid : itemId item = some id) (hid' : itemId item' = some id) :
    item = item' := by
  have hnodup := List.pairwise_filterMap.mp lib.ids_nodup
  have hsymm : Std.Symm fun a b : Value => ∀ x, itemId a = some x →
      ∀ y, itemId b = some y → x ≠ y :=
    ⟨fun a b hab x hx y hy => (hab y hy x hx).symm⟩
  by_contra hne
  exact hnodup.forall h h' hne id hid id hid' rfl

theorem doc_eq_of_id_eq {cfg : MediaConfig} {lib : Library} {d d' : Doc}
    (h : d ∈ libraryDocs cfg lib) (h' : d' ∈ libraryDocs cfg lib)
    (hid : d.entry.id = d'.entry.id) : d = d' := by
  obtain ⟨item, hitem, hd, -⟩ := mem_libraryDocs.mp h
  obtain ⟨item', hitem', hd', -⟩ := mem_libraryDocs.mp h'
  have hitems : item = item' :=
    item_eq_of_id_eq hitem hitem' (id_document hd) (hid ▸ id_document hd')
  rw [← hitems, hd] at hd'
  exact Option.some.inj hd'

end AssistantHub.LibraryDocs
