import AssistantHub.EpisodeQueries
import AssistantHub.Fallible
import AssistantHub.JellyfinServer
import AssistantHub.JsonValue
import AssistantHub.TimedCache
import AssistantHub.TrimmedEnds

namespace AssistantHub.JellyfinPicks

open AssistantHub.CrashSteps
open AssistantHub.EpisodeQueries
open AssistantHub.Fallible
open AssistantHub.IndexRank
open AssistantHub.IndexStore
open AssistantHub.JellyfinFind
open AssistantHub.JellyfinServer
open AssistantHub.JsonValue
open AssistantHub.RunPrefixes
open AssistantHub.RustText (isWhitespace)
open AssistantHub.SoundMatches
open AssistantHub.TimedCache
open AssistantHub.TopSelection
open AssistantHub.TrimmedEnds
open AssistantHub.UnicodeText

/-- An item with all its fields. -/
structure LibraryItem extends Item where
  playbackPositionTicks : Nat
  parentIndexNumber : Option Nat
  indexNumber : Option Nat
  seriesId : Option String
  seriesName : Option String
  deriving DecidableEq

/-- What Jellyfin has for a search. -/
structure Answers (F : Type) extends Server F LibraryItem where
  users : Reply (List Value)
  info : Reply Value
  sessions : Reply (List Value)
  library : (userId : String) → Reply (List LibraryItem)
  episodes : (userId seriesId : String) → Reply (List LibraryItem)
  nextUp : (userId seriesId : String) → Reply (List LibraryItem)

def libraryTtl : Nat := 600 * 10 ^ 9

/-- `str::eq_ignore_ascii_case` -/
def eqIgnoreAsciiCase (a b : String) : Bool := a.toList.map Char.toLower = b.toList.map Char.toLower

/-- The ID of a user name. -/
def userIdOf (users : List Value) (name : String) : Option String :=
  (users.find? fun v => (v.index "Name").asStr.any fun n => eqIgnoreAsciiCase n name).bind
    fun v => (v.index "Id").asStr

/-- The user of a session on one of the devices; one that plays something wins. -/
def sessionUserOf (u : Unicode) (sessions : List Value) (devices : String) : Option String :=
  let wanted := (devices.toList.splitOn ',').map fun d =>
    u.toLowercase (trimEnds isWhitespace d)
  let onDevice := sessions.filter fun s =>
    ((s.index "DeviceName").asStr.any fun d => decide (u.toLowercase d.toList ∈ wanted)) &&
      (s.index "UserName").asStr.isSome
  ((onDevice.find? fun s => (s.index "NowPlayingItem").isObject).or onDevice.head?).bind
    fun s => (s.index "UserName").asStr

inductive PickKind where
  | episode
  | movie
  deriving DecidableEq, Repr

structure Pick (F : Type) where
  matched : Match
  score : F
  kind : PickKind
  query : String
  itemId : String
  title : String
  episodeTitle : Option String
  season : Option Nat
  episode : Option Nat
  resumeSeconds : Nat
  user : String
  userId : String
  serverId : String
  deriving DecidableEq

/-- A request of a client and what Jellyfin has for it. The title list is wanted at `now`,
and a new one is there at `got`. -/
structure Request (F : Type) where
  query : String
  user : Option String
  devices : Option String
  server : Answers F
  now : Nat
  got : Nat
  le : now ≤ got

/-- Who asks, and the server. -/
structure Session where
  user : String
  userId : String
  serverId : String

section Search

variable {F : Type} [Field F] [LinearOrder F]
variable (u : Unicode) (episodeIntent : String → Bool) (sel : Selection (byScore F))

/-- The user: the one of the request, else the one of an open session, else the one of
the settings. -/
def Request.userName (r : Request F) (cfgUser : String) : String :=
  let user := r.user.filter fun name => name ≠ ""
  let fromSession := match user, r.devices.filter fun d => d ≠ "" with
    | none, some devices =>
        match get "/Sessions" r.server.sessions with
        | .ok sessions => sessionUserOf u sessions devices
        | .error _ => none
    | _, _ => none
  (user.or fromSession).getD cfgUser

def Request.session (r : Request F) (cfgUser : String) : Except Error Session := do
  let user := r.userName u cfgUser
  let users ← get "/Users" r.server.users
  let userId ← match userIdOf users user with
    | some id => .ok id
    | none => .error s!"no Jellyfin user {user}"
  let info ← get "/System/Info/Public" r.server.info
  .ok ⟨user, userId, (info.index "Id").asStr.getD ""⟩

/-- The request for the title list of a user. -/
def Request.fetch (r : Request F) (userId : String) :
    Fetch String (List LibraryItem) Error :=
  ⟨r.now, userId, get "/Items" (r.server.library userId), r.got, r.le⟩

/-- An episode of the media index makes way for its series, when a season or an episode
is named. -/
def replaceBySeries (season episode : Option Nat) (library : List LibraryItem)
    (item : LibraryItem) : LibraryItem :=
  if item.kind = "Episode" ∧ (season.isSome ∨ episode.isSome) then
    (item.seriesId.bind fun id => library.find? fun i => i.id = id).getD item
  else item

def pick (found : FoundItem F LibraryItem) (session : Session) (words title : String)
    (ep : Option LibraryItem) (target : LibraryItem) : Pick F :=
  { matched := found.matched
    score := found.score
    kind := if ep.isSome then .episode else .movie
    query := words
    itemId := target.id
    title := title
    episodeTitle := ep.map fun e => e.name
    season := ep.bind LibraryItem.parentIndexNumber
    episode := ep.bind LibraryItem.indexNumber
    resumeSeconds := if target.played then 0 else target.playbackPositionTicks / 10000000
    user := session.user
    userId := session.userId
    serverId := session.serverId }

/-- The episode of a season, or the first of that number. -/
def isNamed (season episode : Option Nat) (e : LibraryItem) : Bool :=
  (season.all fun s => e.parentIndexNumber = some s) && e.indexNumber = some (episode.getD 1)

/-- The episode of a series to play. -/
def chooseEpisode (server : Answers F) (userId seriesId : String)
    (season episode : Option Nat) : Except Error (Option LibraryItem) :=
  let episodes := get s!"/Shows/{seriesId}/Episodes" (server.episodes userId seriesId)
  if season.isSome ∨ episode.isSome then
    episodes.map fun list => list.find? (isNamed season episode)
  else do
    let next ← get "/Shows/NextUp" (server.nextUp userId seriesId)
    match next.head? with
    | some e => .ok (some e)
    | none => episodes.map List.head?

/-- What a search does with the title list. -/
def choose (server : Answers F) (session : Session) (words : String)
    (season episode : Option Nat) (library : List LibraryItem) :
    Except Error (Option (Pick F)) := do
  let some found ← server.toServer.find LibraryItem.toItem u episodeIntent sel session.userId words library
    | .ok none
  let item := replaceBySeries season episode library found.item
  let title := if item.kind = "Episode" then item.seriesName.getD item.name else item.name
  if item.kind = "Episode" then
    .ok (some (pick found session words title (some item) item))
  else if item.kind ≠ "Series" then .ok (some (pick found session words title none item))
  else do
    let chosen ← chooseEpisode server session.userId item.id season episode
    .ok (chosen.map fun e => pick found session words title (some e) e)

abbrev LibraryCache := Option (Cached String (List LibraryItem))

/-- The item to play for a spoken query, and the title list behind it. -/
def search (cfgUser : String) (r : Request F) (cache : LibraryCache) :
    Except Error (Option (Pick F)) × LibraryCache :=
  match r.session u cfgUser with
  | .error err => (.error err, cache)
  | .ok session =>
      let (words, season, episode) := splitEpisode u r.query
      if words = "" then (.ok none, cache)
      else
        let (library, cache) := TimedCache.fetch libraryTtl (r.fetch session.userId) cache
        (library.bind (choose u episodeIntent sel r.server session words season episode), cache)

/-- The title list that a search wants, when it gets to it. -/
def Request.wanted (r : Request F) (cfgUser : String) :
    Option (Fetch String (List LibraryItem) Error) :=
  match r.session u cfgUser with
  | .error _ => none
  | .ok session =>
      if (splitEpisode u r.query).1 = "" then none else some (r.fetch session.userId)

/-- The title lists after some searches. -/
def searched (cfgUser : String) (rs : List (Request F)) : LibraryCache :=
  run (fun r cache => (search u episodeIntent sel cfgUser r cache).2) rs none

/-- The list came for one of the searches, of the same user and not long ago. -/
def Fresh (cfgUser : String) (rs : List (Request F)) (now : Nat) (userId : String)
    (library : List LibraryItem) : Prop :=
  ∃ g ∈ rs, (∃ session, g.session u cfgUser = .ok session ∧ session.userId = userId) ∧
    now - g.got < libraryTtl ∧ g.server.library userId = .success (some library)

variable {u episodeIntent sel} {cfgUser : String}

theorem search_snd (r : Request F) (cache : LibraryCache) :
    (search u episodeIntent sel cfgUser r cache).2 =
      (r.wanted u cfgUser).elim cache fun f => refresh libraryTtl f cache := by
  rw [search, Request.wanted]
  rcases r.session u cfgUser with err | session
  · rfl
  · dsimp only
    split <;> rfl

theorem searched_eq (rs : List (Request F)) :
    searched u episodeIntent sel cfgUser rs =
      run (refresh libraryTtl) (rs.filterMap fun r => r.wanted u cfgUser) none :=
  run_filterMap search_snd rs none

omit [Field F] [LinearOrder F] in
theorem wanted_eq_some {r : Request F} {f : Fetch String (List LibraryItem) Error}
    (h : r.wanted u cfgUser = some f) :
    ∃ session, r.session u cfgUser = .ok session ∧ f = r.fetch session.userId := by
  rw [Request.wanted] at h
  rcases hsession : r.session u cfgUser with err | session
  · rw [hsession] at h
    cases h
  · rw [hsession] at h
    dsimp only at h
    split at h
    · cases h
    · exact ⟨session, rfl, (Option.some.inj h).symm⟩

theorem search_eq_some {r : Request F} {cache : LibraryCache} {p : Pick F}
    (h : (search u episodeIntent sel cfgUser r cache).1 = .ok (some p)) :
    ∃ session library, r.session u cfgUser = .ok session ∧
      r.wanted u cfgUser = some (r.fetch session.userId) ∧
        (fetch libraryTtl (r.fetch session.userId) cache).1 = .ok library ∧
          choose u episodeIntent sel r.server session (splitEpisode u r.query).1
            (splitEpisode u r.query).2.1 (splitEpisode u r.query).2.2 library =
              .ok (some p) := by
  rw [search] at h
  rcases hsession : r.session u cfgUser with err | session
  · rw [hsession] at h
    cases h
  · rw [hsession] at h
    dsimp only at h
    split at h
    · cases h
    · rename_i hwords
      obtain ⟨library, hlibrary, hchoose⟩ := bind_eq_ok.mp h
      refine ⟨session, library, rfl, ?_, hlibrary, hchoose⟩
      rw [Request.wanted, hsession]
      exact if_neg hwords

theorem fresh_of_fetch {rs : List (Request F)} {r : Request F} {session : Session}
    {library : List LibraryItem} (hwanted : r.wanted u cfgUser = some (r.fetch session.userId))
    (h : (fetch libraryTtl (r.fetch session.userId)
      (searched u episodeIntent sel cfgUser rs)).1 = .ok library) :
    Fresh u cfgUser (rs ++ [r]) r.now session.userId library := by
  have hpos : 0 < libraryTtl := by decide
  rw [searched_eq] at h
  obtain ⟨f, hf, hkey, hnow, hreply⟩ := fetch_run hpos _ _ h
  have hmem : f ∈ (rs ++ [r]).filterMap fun r => r.wanted u cfgUser := by
    rw [List.filterMap_append, List.filterMap_cons, hwanted]
    exact hf
  obtain ⟨g, hg, hgwanted⟩ := List.mem_filterMap.mp hmem
  obtain ⟨asked, hasked, rfl⟩ := wanted_eq_some hgwanted
  have hid : asked.userId = session.userId := hkey
  refine ⟨g, hg, ⟨asked, hasked, hid⟩, hnow, ?_⟩
  rw [← hid]
  exact get_eq_ok hreply

theorem choose_eq_some {server : Answers F} {session : Session} {words : String}
    {season episode : Option Nat} {library : List LibraryItem} {p : Pick F}
    (h : choose u episodeIntent sel server session words season episode library =
      .ok (some p)) :
    ∃ found, server.toServer.find LibraryItem.toItem u episodeIntent sel session.userId
        words library = .ok (some found) ∧
      ∃ item, item = replaceBySeries season episode library found.item ∧
        (item.kind = "Episode" ∧
            p = pick found session words (item.seriesName.getD item.name) (some item) item ∨
          item.kind ≠ "Episode" ∧ item.kind ≠ "Series" ∧
            p = pick found session words item.name none item ∨
          item.kind = "Series" ∧ ∃ e,
            chooseEpisode server session.userId item.id season episode = .ok (some e) ∧
              p = pick found session words item.name (some e) e) := by
  obtain ⟨o, hfind, hrest⟩ := bind_eq_ok.mp h
  rcases o with _ | found
  · cases hrest
  · refine ⟨found, hfind, _, rfl, ?_⟩
    dsimp only at hrest
    generalize replaceBySeries season episode library found.item = item at hrest ⊢
    by_cases hepisode : item.kind = "Episode"
    · rw [if_pos hepisode, if_pos hepisode] at hrest
      exact Or.inl ⟨hepisode, (Option.some.inj (Except.ok.inj hrest)).symm⟩
    · rw [if_neg hepisode, if_neg hepisode] at hrest
      by_cases hseries : item.kind = "Series"
      · rw [if_neg (not_not.mpr hseries)] at hrest
        obtain ⟨chosen, hchosen, hmap⟩ := bind_eq_ok.mp hrest
        obtain ⟨e, rfl, rfl⟩ := Option.map_eq_some_iff.mp (Except.ok.inj hmap)
        exact Or.inr (Or.inr ⟨hseries, e, hchosen, rfl⟩)
      · rw [if_pos hseries] at hrest
        exact Or.inr (Or.inl ⟨hepisode, hseries, (Option.some.inj (Except.ok.inj hrest)).symm⟩)

omit [Field F] [LinearOrder F] in
theorem chooseEpisode_named {server : Answers F} {userId seriesId : String}
    {season episode : Option Nat} {e : LibraryItem}
    (hnamed : season.isSome ∨ episode.isSome)
    (h : chooseEpisode server userId seriesId season episode = .ok (some e)) :
    ∃ es, server.episodes userId seriesId = .success (some es) ∧
      es.find? (isNamed season episode) = some e := by
  rw [chooseEpisode, if_pos hnamed] at h
  obtain ⟨es, hes, hfind⟩ := map_eq_ok.mp h
  exact ⟨es, get_eq_ok hes, hfind⟩

theorem replaceBySeries_episode {season episode : Option Nat} {library : List LibraryItem}
    {found item : LibraryItem} (hnamed : season.isSome ∨ episode.isSome)
    (h : item = replaceBySeries season episode library found) (hkind : item.kind = "Episode") :
    item ∈ library ∨
      item = found ∧ ∀ id, item.seriesId = some id → ∀ i ∈ library, i.id ≠ id := by
  rw [replaceBySeries] at h
  split at h
  · rcases hseries : found.seriesId.bind fun id => library.find? fun i => i.id = id with _ | i
    · rw [hseries, Option.getD_none] at h
      subst h
      refine Or.inr ⟨rfl, ?_⟩
      intro id hid i hi heq
      rw [hid, Option.bind_some, List.find?_eq_none] at hseries
      exact hseries i hi (decide_eq_true heq)
    · rw [hseries, Option.getD_some] at h
      obtain ⟨id, -, hfind⟩ := Option.bind_eq_some_iff.mp hseries
      exact Or.inl (h ▸ List.mem_of_find?_eq_some hfind)
  · rename_i hother
    exact absurd ⟨h ▸ hkind, hnamed⟩ hother

end Search

section Results

variable {F : Type} [Field F] [LinearOrder F] (u : Unicode) (episodeIntent : String → Bool)
variable (sel : Selection (byScore F)) (cfgUser : String) (rs : List (Request F)) (r : Request F)
variable {p : Pick F}

def frieren : LibraryItem where
  id := "s1"
  name := "Frieren: Beyond Journey's End"
  kind := "Series"
  productionYear := some 2023
  played := false
  playbackPositionTicks := 0
  parentIndexNumber := none
  indexNumber := none
  seriesId := none
  seriesName := none

def frierenEpisode (n : Nat) : LibraryItem where
  id := s!"e{n}"
  name := ""
  kind := "Episode"
  productionYear := none
  played := false
  playbackPositionTicks := 90 * 10 ^ 7
  parentIndexNumber := some 1
  indexNumber := some n
  seriesId := some "s1"
  seriesName := some "Frieren: Beyond Journey's End"

/-- Anna asks; the title list takes a second, or there is none. -/
def annaAsks (query : String) (now : Nat) (library : Reply (List LibraryItem)) : Request ℚ where
  query := query
  user := some "anna"
  devices := none
  server :=
    { media := none
      item := fun _ _ => .unsent "connection refused"
      search := fun _ _ => .unsent "connection refused"
      users := .success (some [.object [("Id", .string "u1"), ("Name", .string "Anna")]])
      info := .success (some (.object [("Id", .string "srv")]))
      sessions := .unsent "connection refused"
      library := fun _ => library
      episodes := fun _ _ => .success (some [frierenEpisode 1, frierenEpisode 2])
      nextUp := fun _ _ => .success (some []) }
  now := now
  got := now + 10 ^ 9
  le := Nat.le_add_right now _

def annasPick : Pick ℚ where
  matched := .title
  score := 1
  kind := .episode
  query := "frieren"
  itemId := "e2"
  title := "Frieren: Beyond Journey's End"
  episodeTitle := some ""
  season := some 1
  episode := some 2
  resumeSeconds := 90
  user := "anna"
  userId := "u1"
  serverId := "srv"

def before : List (Request ℚ) := [annaAsks "frieren" 0 (.success (some [frieren]))]

def asked : Request ℚ :=
  annaAsks "frieren episode 2" (500 * 10 ^ 9) (.unsent "connection refused")

theorem search_annasPick :
    (search .asciiHan (fun _ => false) (sorting (byScore ℚ)) "tv" asked
      (searched .asciiHan (fun _ => false) (sorting (byScore ℚ)) "tv" before)).1 =
        .ok (some annasPick) := by
  decide +kernel

/-- The pick is the first episode of a series with the numbers that were named; the number
of an episode that was not named is one. -/
def ByNumber (p : Pick F) (server : Answers F) (season episode : Option Nat) : Prop :=
  p.kind = .episode ∧ p.episode = some (episode.getD 1) ∧
    (∀ s, season = some s → p.season = some s) ∧
      ∃ seriesId es e, server.episodes p.userId seriesId = .success (some es) ∧
        es.find? (isNamed season episode) = some e ∧ p.itemId = e.id

/-- The pick is an episode by itself: it is in the list, or its series is not. -/
def Alone (p : Pick F) (library : List LibraryItem) : Prop :=
  p.kind = .episode ∧ ∃ item, item.kind = "Episode" ∧ p.itemId = item.id ∧
    (item ∈ library ∨ ∀ id, item.seriesId = some id → ∀ i ∈ library, i.id ≠ id)

def Film (p : Pick F) : Prop :=
  p.kind = .movie ∧ p.season = none ∧ p.episode = none ∧ p.episodeTitle = none

end Results

end AssistantHub.JellyfinPicks
