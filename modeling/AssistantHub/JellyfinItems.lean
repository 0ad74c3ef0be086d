import AssistantHub.MediaDocs

namespace AssistantHub.JellyfinItems

open AssistantHub.IndexStore
open AssistantHub.JsonValue
open AssistantHub.MediaDocs

/-- A request to `/Items`. The other query parameters are the same in all of
them. -/
structure ItemsRequest where
  types : String
  fields : String
  start : Nat
  limit : Nat
  ids : Option String

/-- How one request ends: with an error, or with the JSON body of a success. -/
abbrev Answer := ItemsRequest → Except Error Value

def pageItems (page : Value) : List Value :=
  (page.index "Items").asArray.getD []

def pageTotal (page : Value) : Nat :=
  ((page.index "TotalRecordCount").asU64.getD 0).toNat

def itemsPage (answer : Answer) (types fields : String) (start limit : Nat)
    (ids : Option String) : Except Error (List Value × Nat) :=
  (answer ⟨types, fields, start, limit, ids⟩).map fun page =>
    (pageItems page, pageTotal page)

def splitComma (s : String) : List String :=
  (s.toList.splitOn ',').map String.ofList

theorem splitComma_intercalate {ss : List String} (hne : ss ≠ [])
    (h : ∀ s ∈ ss, ',' ∉ s.toList) : splitComma (",".intercalate ss) = ss := by
  have hlists : ∀ l ∈ ss.map String.toList, ',' ∉ l := by
    intro l hl
    obtain ⟨s, hs, rfl⟩ := List.mem_map.mp hl
    exact h s hs
  have hcomma : ",".toList = [','] := rfl
  rw [splitComma, String.toList_intercalate, hcomma,
    List.splitOn_intercalate ',' hlists (by simpa using hne), List.map_map]
  have hid : String.ofList ∘ String.toList = id := by
    funext s
    exact String.ofList_toList
  rw [hid, List.map_id]

/-- The fields that Jellyfin sends only when a request names them. -/
def optionalFields : List String := splitComma WORK_FIELDS

def sent (fields : String) (item : Value) : Value :=
  item.filterFields fun key =>
    !(optionalFields.contains key) || (splitComma fields).contains key

def itemId (item : Value) : Option String := (item.index "Id").asStr

def itemType (item : Value) : Option String := (item.index "Type").asStr

/-- The library of a Jellyfin server, in its order. No two items have the same
ID. -/
structure Library where
  items : List Value
  ids_nodup : (items.filterMap itemId).Nodup
  size_lt : items.length < 2 ^ 64

def Library.matching (lib : Library) (types : String) (ids : Option String) :
    List Value :=
  lib.items.filter fun item =>
    (itemType item).any (splitComma types).contains &&
      ids.all fun ids => (itemId item).any (splitComma ids).contains

def Library.page (lib : Library) (cap : Nat) (req : ItemsRequest) : Value :=
  let found := lib.matching req.types req.ids
  .object
    [("Items", .array
        (((found.drop req.start).take (min req.limit cap)).map
          (sent req.fields))),
      ("TotalRecordCount", .number (.posInt (UInt64.ofNat found.length)))]

def Serves (lib : Library) (answer : Answer) : Prop :=
  ∀ req, ∃ cap > 0, answer req = .ok (lib.page cap req)

theorem pageItems_page (lib : Library) (cap : Nat) (req : ItemsRequest) :
    pageItems (lib.page cap req) =
      (((lib.matching req.types req.ids).drop req.start).take
        (min req.limit cap)).map (sent req.fields) := rfl

theorem pageTotal_page (lib : Library) (cap : Nat) (req : ItemsRequest) :
    pageTotal (lib.page cap req) = (lib.matching req.types req.ids).length := by
  have hlt : (lib.matching req.types req.ids).length < 2 ^ 64 :=
    Nat.lt_of_le_of_lt (List.length_filter_le _ _) lib.size_lt
  change (UInt64.ofNat (lib.matching req.types req.ids).length).toNat = _
  rw [UInt64.toNat_ofNat', Nat.mod_eq_of_lt hlt]

theorem mem_matching {lib : Library} {types : String} {ids : Option String}
    {item : Value} :
    item ∈ lib.matching types ids ↔
      item ∈ lib.items ∧ (∃ t ∈ splitComma types, itemType item = some t) ∧
        ∀ s, ids = some s → ∃ id ∈ splitComma s, itemId item = some id := by
  simp only [Library.matching, List.mem_filter, Bool.and_eq_true,
    Option.any_eq_true, Option.all_eq_true, List.contains_iff_mem]
  simp only [and_comm]

/-- The document of an item survives when the request names the optional
fields that the document of its kind reads. -/
theorem document_sent {fields : String} {item : Value}
    (h : ∀ kind, (itemType item).bind Kind.fromJellyfin = some kind →
      ∀ key ∈ readFields kind, key ∈ optionalFields → key ∈ splitComma fields) :
    document (sent fields item) = document item := by
  have hindex : ∀ key, (key ∈ optionalFields → key ∈ splitComma fields) →
      (sent fields item).index key = item.index key := by
    intro key hkey
    apply index_filterFields
    by_cases hopt : key ∈ optionalFields
    · simp [hkey hopt]
    · simp [hopt]
  have htype : (sent fields item).index "Type" = item.index "Type" :=
    hindex _ fun hopt => absurd hopt (by decide)
  apply document_congr htype
  intro kind hkind key hkey
  rw [htype] at hkind
  exact hindex key (h kind hkind key hkey)

theorem fromJellyfin_eq_some {t : String} {kind : Kind}
    (h : Kind.fromJellyfin t = some kind) :
    (t = "Series" ∧ kind = .series) ∨ (t = "Movie" ∧ kind = .movie) ∨
      (t = "Episode" ∧ kind = .episode) := by
  rw [Kind.fromJellyfin] at h
  split at h
  · exact Or.inl ⟨‹_›, (Option.some.inj h).symm⟩
  · split at h
    · exact Or.inr (Or.inl ⟨‹_›, (Option.some.inj h).symm⟩)
    · split at h
      · exact Or.inr (Or.inr ⟨‹_›, (Option.some.inj h).symm⟩)
      · cases h

end AssistantHub.JellyfinItems
