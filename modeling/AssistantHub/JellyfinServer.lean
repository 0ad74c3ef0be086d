import AssistantHub.Fallible
import AssistantHub.JellyfinFind

namespace AssistantHub.JellyfinServer

open AssistantHub.Fallible (map_eq_ok)
open AssistantHub.IndexRank
open AssistantHub.IndexStore
open AssistantHub.JellyfinFind
open AssistantHub.SoundMatches
open AssistantHub.TitleChecks
open AssistantHub.TitleScores
open AssistantHub.TitleText
open AssistantHub.TopSelection
open AssistantHub.UnicodeText

section Stages

-- The stages read a few fields of the items of a server; the items themselves stay whole.
variable {F : Type} [Field F] [LinearOrder F] {T : Type} (view : T → Item)
variable (u : Unicode) (episodeIntent : String → Bool) (sel : Selection (byScore F))

def bestMatchOf (query : String) (library : List T) : Option T :=
  let scored := library.filterMap fun item =>
    (score u query (view item).name).map fun s => (s, item)
  (scored.argmin fun p => bestKey (p.1, view p.2)).map Prod.snd

def fuzzyMatchOf (query : String) (library : List T) : Option (T × ℚ) :=
  let q := trigrams u query
  let similar := library.map fun item =>
    (item, max (trigramSimilarity q (trigrams u (view item).name))
      (trigramSimilarity q (trigrams u (mainTitle (view item).name))))
  (similar.filter fun p => decide (fuzzyMin ≤ p.2)).argmin fun p => fuzzyKey (view p.1, p.2)

def soundMatchOf (query : String) (library : List T) : Option T :=
  let q := skeleton u query
  if q.utf8ByteSize < 3 then none
  else
    let found := library.filter fun i => skeleton u (mainTitle (view i).name) = q
    found.head?.bind fun first =>
      if found.all fun i =>
          squashed u (mainTitle (view i).name) = squashed u (mainTitle (view first).name) then
        found.argmin fun i => matchKey (view i)
      else none

/-- What the finder of titles gets from the server and from the media index. -/
structure Server (F T : Type) where
  media : Option (MediaIndex F)
  item : (userId id : String) → Reply T
  search : (userId words : String) → Reply (List T)

/-- An item that was found, with the stage and its score. -/
structure FoundItem (F T : Type) where
  item : T
  matched : Match
  score : F

def Server.semanticStage (s : Server F T) (userId words : String) (library : List T) :
    Except Error (Option (FoundItem F T)) :=
  match s.media.filter MediaIndex.ready with
  | none => .ok none
  | some media =>
      match media.semantic episodeIntent sel words with
      | .error _ => .ok none
      | .ok none => .ok none
      | .ok (some hit) =>
          if hit.accepted && semanticTitleOk u words hit.name then
            match library.find? fun i => decide ((view i).id = hit.id) with
            | some item => .ok (some ⟨item, .semantic, hit.score⟩)
            | none => (get s!"/Items/{hit.id}" (s.item userId hit.id)).map fun item =>
                some ⟨item, .semantic, hit.score⟩
          else .ok none

def Server.searchStage (s : Server F T) (userId words : String) :
    Except Error (Option (FoundItem F T)) :=
  (get "/Items" (s.search userId words)).map fun items =>
    items.head?.bind fun item =>
      let sim := max (similarity u words (mainTitle (view item).name))
        (similarity u words (view item).name)
      if fuzzyMin ≤ sim then some ⟨item, .jellyfin, (sim : F)⟩ else none

def Server.find (s : Server F T) (userId words : String) (library : List T) :
    Except Error (Option (FoundItem F T)) :=
  match bestMatchOf view u words library with
  | some item => .ok (some ⟨item, .title, 1⟩)
  | none =>
      match fuzzyMatchOf view u words library with
      | some similar => .ok (some ⟨similar.1, .fuzzy, (similar.2 : F)⟩)
      | none =>
          match soundMatchOf view u words library with
          | some item => .ok (some ⟨item, .sound, ((1 / 2 : ℚ) : F)⟩)
          | none =>
              match s.semanticStage view u episodeIntent sel userId words library with
              | .error err => .error err
              | .ok (some found) => .ok (some found)
              | .ok none => s.searchStage view u userId words

end Stages

section Views

variable {F : Type} [Field F] [LinearOrder F] {T : Type} {view : T → Item}
variable {u : Unicode} {episodeIntent : String → Bool} {sel : Selection (byScore F)}

theorem argmin_map {α β K : Type*} [Preorder K] [DecidableLT K] (f : α → β) (key : β → K)
    (l : List α) : (l.map f).argmin key = (l.argmin fun a => key (f a)).map f := by
  induction l using List.reverseRecOn with
  | nil => rfl
  | append_singleton l a ih =>
      rw [List.map_append, List.map_singleton, List.argmin_concat, List.argmin_concat, ih]
      rcases l.argmin fun a => key (f a) with _ | m
      · rfl
      · show (if key (f a) < key (f m) then some (f a) else some (f m)) =
          (if key (f a) < key (f m) then some a else some m).map f
        split <;> rfl

theorem bestMatch_map (query : String) (library : List T) :
    bestMatch u query (library.map view) = (bestMatchOf view u query library).map view := by
  have hscored : ((library.map view).filterMap fun item =>
      (score u query item.name).map fun s => (s, item)) =
        (library.filterMap fun item =>
          (score u query (view item).name).map fun s => (s, item)).map
            (Prod.map id view) := by
    rw [List.filterMap_map, List.map_filterMap]
    congr 1
    funext item
    show Option.map _ _ = Option.map _ (Option.map _ _)
    rw [Option.map_map]
    rfl
  rw [bestMatch, bestMatchOf, hscored, argmin_map, Option.map_map, Option.map_map]
  rfl

theorem fuzzyMatch_map (query : String) (library : List T) :
    fuzzyMatch u query (library.map view) =
      (fuzzyMatchOf view u query library).map (Prod.map view id) := by
  have hkey : (fun p : T × ℚ => fuzzyKey (view p.1, p.2)) =
      fun p => fuzzyKey (Prod.map view id p) := rfl
  rw [fuzzyMatch, fuzzyMatchOf, hkey, ← argmin_map, List.map_map]
  congr 1
  rw [List.filter_map, List.filter_map, List.map_map]
  rfl

theorem soundMatch_map (query : String) (library : List T) :
    soundMatch u query (library.map view) = (soundMatchOf view u query library).map view := by
  rw [soundMatch, soundMatchOf]
  split
  · rfl
  · simp only [List.filter_map, List.head?_map, List.all_map, Option.bind_map, Function.comp_def]
    rcases List.head? _ with _ | first
    · rfl
    · simp only [Option.bind_some, argmin_map]
      split <;> rfl

/-- A reply with another body. -/
def mapReply {A B : Type} (f : A → B) : Reply A → Reply B
  | .unsent err => .unsent err
  | .status status => .status status
  | .success body => .success (body.map f)

theorem get_mapReply {A B : Type} (f : A → B) (path : String) (r : Reply A) :
    get path (mapReply f r) = (get path r).map f := by
  rcases r with err | status | _ | body <;> rfl

/-- The server as the stages see it. -/
def Server.titles (view : T → Item) (s : Server F T) : Jellyfin F :=
  { media := s.media
    itemReply := fun userId id => mapReply view (s.item userId id)
    searchReply := fun userId words => mapReply (List.map view) (s.search userId words) }

def FoundItem.found (view : T → Item) (f : FoundItem F T) : Found F :=
  ⟨view f.item, f.matched, f.score⟩

theorem semanticStage_titles (s : Server F T) (userId words : String) (library : List T) :
    (s.titles view).semanticStage u episodeIntent sel userId words (library.map view) =
      (s.semanticStage view u episodeIntent sel userId words library).map
        (Option.map (FoundItem.found view)) := by
  unfold Jellyfin.semanticStage Server.semanticStage
  show (match s.media.filter MediaIndex.ready with | none => _ | some media => _) = _
  rcases s.media.filter MediaIndex.ready with _ | media
  · rfl
  · dsimp only
    rcases media.semantic episodeIntent sel words with err | _ | hit
    · rfl
    · rfl
    · dsimp only
      split
      · rw [List.find?_map]
        have hgo : (library.find? ((fun i => decide (i.id = hit.id)) ∘ view)) =
            library.find? fun i => decide ((view i).id = hit.id) := rfl
        rw [hgo]
        rcases library.find? fun i => decide ((view i).id = hit.id) with _ | item
        · show Except.map _ (get _ (mapReply view (s.item userId hit.id))) = _
          rw [get_mapReply]
          rcases get _ (s.item userId hit.id) with err | item <;> rfl
        · rfl
      · rfl

omit [LinearOrder F] in
theorem searchStage_titles (s : Server F T) (userId words : String) :
    (s.titles view).searchStage u userId words =
      (s.searchStage view u userId words).map (Option.map (FoundItem.found view)) := by
  rw [Jellyfin.searchStage, Server.searchStage]
  show Except.map _ (get "/Items" (mapReply (List.map view) (s.search userId words))) = _
  rw [get_mapReply]
  rcases get "/Items" (s.search userId words) with err | _ | ⟨item, rest⟩
  · rfl
  · rfl
  · show Except.ok _ = Except.ok _
    simp only [List.map_cons, List.head?_cons, Option.bind_some]
    split <;> rfl

omit [LinearOrder F] in
theorem cast_half : ((1 / 2 : ℚ) : F) = 1 / 2 := by
  have hnum : (1 / 2 : ℚ).num = 1 := by decide +kernel
  have hden : (1 / 2 : ℚ).den = 2 := by decide +kernel
  rw [Rat.cast_def, hnum, hden, Int.cast_one, Nat.cast_ofNat]

/-- On what they read of the items, the stages find what the finder of titles finds. -/
theorem find_titles (s : Server F T) (userId words : String) (library : List T) :
    (s.titles view).find u episodeIntent sel userId words (library.map view) =
      (s.find view u episodeIntent sel userId words library).map
        (Option.map (FoundItem.found view)) := by
  rw [Jellyfin.find, Server.find, bestMatch_map, fuzzyMatch_map, soundMatch_map,
    semanticStage_titles, searchStage_titles]
  rcases bestMatchOf view u words library with _ | item
  · rcases fuzzyMatchOf view u words library with _ | ⟨item, sim⟩
    · rcases soundMatchOf view u words library with _ | item
      · rcases s.semanticStage view u episodeIntent sel userId words library with
          err | _ | found <;> rfl
      · show _ = Except.ok (some (FoundItem.found view ⟨item, .sound, ((1 / 2 : ℚ) : F)⟩))
        rw [cast_half]
        rfl
    · rfl
  · rfl

theorem get_eq_ok {A : Type} {path : String} {r : Reply A} {a : A} (h : get path r = .ok a) :
    r = .success (some a) := by
  rcases r with err | status | _ | body
  · cases h
  · cases h
  · cases h
  · rw [Except.ok.inj h]

/-- What a search finds is in the list, or the server sent it for this search. -/
def Comes (s : Server F T) (userId words : String) (library : List T) (f : FoundItem F T) :
    Prop :=
  (f.item ∈ library ∧ f.matched ≠ .jellyfin) ∨
    (f.matched = .semantic ∧ ∃ id, s.item userId id = .success (some f.item)) ∨
      (f.matched = .jellyfin ∧ ∃ rest, s.search userId words = .success (some (f.item :: rest)))

omit [Field F] [LinearOrder F] in
theorem mem_of_bestMatchOf {query : String} {library : List T} {item : T}
    (h : bestMatchOf view u query library = some item) : item ∈ library := by
  obtain ⟨⟨s, _⟩, hmin, rfl⟩ := Option.map_eq_some_iff.mp h
  obtain ⟨i, hi, hsome⟩ := List.mem_filterMap.mp (List.argmin_mem hmin)
  obtain ⟨_, -, heq⟩ := Option.map_eq_some_iff.mp hsome
  obtain ⟨-, rfl⟩ := Prod.mk.inj heq
  exact hi

theorem mem_of_fuzzyMatchOf {query : String} {library : List T} {p : T × ℚ}
    (h : fuzzyMatchOf view u query library = some p) : p.1 ∈ library := by
  have hmem := List.mem_of_mem_filter (List.argmin_mem h)
  obtain ⟨i, hi, rfl⟩ := List.mem_map.mp hmem
  exact hi

theorem mem_of_soundMatchOf {query : String} {library : List T} {item : T}
    (h : soundMatchOf view u query library = some item) : item ∈ library := by
  rw [soundMatchOf] at h
  split at h
  · cases h
  · obtain ⟨first, -, hsome⟩ := Option.bind_eq_some_iff.mp h
    split at hsome
    · exact List.mem_of_mem_filter (List.argmin_mem hsome)
    · cases hsome

theorem comes_of_semanticStage {s : Server F T} {userId words : String} {library : List T}
    {f : FoundItem F T}
    (h : s.semanticStage view u episodeIntent sel userId words library = .ok (some f)) :
    Comes s userId words library f := by
  unfold Server.semanticStage at h
  split at h
  · cases h
  · split at h
    · cases h
    · cases h
    · split at h
      · split at h
        · rename_i item hitem
          obtain rfl := Option.some.inj (Except.ok.inj h)
          exact Or.inl ⟨List.mem_of_find?_eq_some hitem, nofun⟩
        · obtain ⟨item, hitem, heq⟩ := map_eq_ok.mp h
          obtain rfl := Option.some.inj heq
          exact Or.inr (Or.inl ⟨rfl, _, get_eq_ok hitem⟩)
      · cases h

omit [LinearOrder F] in
theorem comes_of_searchStage {s : Server F T} {userId words : String} {library : List T}
    {f : FoundItem F T} (h : s.searchStage view u userId words = .ok (some f)) :
    Comes s userId words library f := by
  obtain ⟨items, hitems, hsome⟩ := map_eq_ok.mp h
  obtain ⟨item, hitem, hif⟩ := Option.bind_eq_some_iff.mp hsome
  obtain ⟨rest, rfl⟩ := List.head?_eq_some_iff.mp hitem
  dsimp only at hif
  split at hif
  · obtain rfl := Option.some.inj hif
    exact Or.inr (Or.inr ⟨rfl, rest, get_eq_ok hitems⟩)
  · cases hif

theorem comes_of_find {s : Server F T} {userId words : String} {library : List T}
    {f : FoundItem F T}
    (h : s.find view u episodeIntent sel userId words library = .ok (some f)) :
    Comes s userId words library f := by
  rw [Server.find] at h
  split at h
  · rename_i item hbest
    obtain rfl := Option.some.inj (Except.ok.inj h)
    exact Or.inl ⟨mem_of_bestMatchOf hbest, nofun⟩
  · split at h
    · rename_i similar hfuzzy
      obtain rfl := Option.some.inj (Except.ok.inj h)
      exact Or.inl ⟨mem_of_fuzzyMatchOf hfuzzy, nofun⟩
    · split at h
      · rename_i item hsound
        obtain rfl := Option.some.inj (Except.ok.inj h)
        exact Or.inl ⟨mem_of_soundMatchOf hsound, nofun⟩
      · split at h
        · cases h
        · rename_i found hfound
          obtain rfl := Option.some.inj (Except.ok.inj h)
          exact comes_of_semanticStage hfound
        · exact comes_of_searchStage h

end Views

end AssistantHub.JellyfinServer
