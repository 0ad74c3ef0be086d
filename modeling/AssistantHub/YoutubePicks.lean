import AssistantHub.JellyfinFind
import AssistantHub.RoundedRatios
import AssistantHub.TrimmedEnds
import AssistantHub.YoutubeAnswers

namespace AssistantHub.YoutubePicks

open AssistantHub.IndexStore
open AssistantHub.JellyfinFind (Reply)
open AssistantHub.JsonValue
open AssistantHub.RoundedRatios
open AssistantHub.Rounding
open AssistantHub.RustText (isWhitespace)
open AssistantHub.TitleText
open AssistantHub.TrimmedEnds
open AssistantHub.UnicodeText
open AssistantHub.YoutubeAnswers

inductive PickKind where
  | channelLatest
  | live
  | mix
  | video
  deriving DecidableEq, Repr

structure Pick where
  kind : PickKind
  query : String
  videoId : String
  title : String
  channel : String
  url : String
  deriving DecidableEq, Repr

structure YoutubeConfig where
  clientVersion : String
  language : String
  region : String

/-- The letters of `short` occur in `long` in the same order: each one is looked for behind
the one before. -/
def isSubsequence : List Char → List Char → Bool
  | [], _ => true
  | _ :: _, [] => false
  | c :: short, l :: long => if l = c then isSubsequence short long else isSubsequence (c :: short) long

/-- Shortest abbreviation, as a share of the channel name, that still counts. -/
def abbreviationShare : ℚ := roundF64 (7 / 10)

def nameMatches (query name : String) : Bool :=
  if query = "" ∨ name = "" then false
  else if query = name then true
  else query.toList.head? = name.toList.head? && isSubsequence query.toList name.toList &&
    abbreviationShare ≤ ratioF64 query.utf8ByteSize name.utf8ByteSize

/-- `&s[n..]`: nothing when a character goes over the edge, where the source panics. -/
def sliceFrom : Nat → List Char → Option (List Char)
  | 0, s => some s
  | _ + 1, [] => none
  | n + 1, c :: s => if c.utf8Size ≤ n + 1 then sliceFrom (n + 1 - c.utf8Size) s else none

def genrePrefixes : List String := ["some ", "any "]

def genreEndings : List String := [" music", " mix", " radio", " playlist", " beats"]

def isSentenceEnd (c : Char) : Bool := c = '.' || c = '!' || c = '?'

/-- The search words and whether the query asks for a genre or mood. -/
def analyze (u : Unicode) (query : String) : Option (List Char × Bool) :=
  let q := trimEnds isWhitespace
    ((trimEnds isWhitespace query.toList).rdropWhile isSentenceEnd)
  let lower := u.toLowercase q
  match genrePrefixes.find? fun start => start.toList.isPrefixOf lower with
  | some start => (sliceFrom start.utf8ByteSize q).map fun rest => (trimEnds isWhitespace rest, true)
  | none => some (q, genreEndings.any fun ending => ending.toList.isSuffixOf lower)

/-- `strip_prefix` -/
def stripPrefix (start : String) (s : String) : Option String :=
  if start.toList.isPrefixOf s.toList then some (String.ofList (s.toList.drop start.length)) else none

/-- The channel whose name or handle is the query, if the search found one. -/
def matchingChannel (u : Unicode) (query : String) (items : List Item) : Option Channel :=
  let q := squashed u query
  let qWithoutThe := (stripPrefix "the" q).getD q
  if q = "" then none
  else
    items.findSome? fun item =>
      match item with
      | .channel c =>
          if [squashed u c.title, squashed u c.handle].any fun n =>
              nameMatches q n || nameMatches qWithoutThe n then some c
          else none
      | .video _ => none

def playable (v : Video) : Bool := !v.short && !v.upcoming

def playableVideos (items : List Item) : List Video :=
  items.filterMap fun item =>
    match item with
    | .video v => if playable v then some v else none
    | .channel _ => none

def isLong (v : Video) : Bool := v.live || v.durationSecs.any fun d => longMixSecs ≤ d

def firstVideo (items : List Item) : Option (PickKind × Video) :=
  (playableVideos items).head?.map fun v => (if v.live then .live else .video, v)

/-- Picks from search results. -/
def pickFromSearch (items : List Item) (genre : Bool) : Option (PickKind × Video) :=
  if genre then
    match (playableVideos items).find? isLong with
    | some v => some (if v.live then .live else .mix, v)
    | none => firstVideo items
  else firstVideo items

/-- The payload of a call: the client, and the fields of the call. -/
def payload (cfg : YoutubeConfig) (body : List (String × Value)) : Value :=
  .object (("context", .object [("client", .object
    [("clientName", .string "WEB"), ("clientVersion", .string cfg.clientVersion),
      ("gl", .string cfg.region), ("hl", .string cfg.language)])]) :: body)

/-- YouTube, as the replies to the calls. -/
abbrev Post := (endpoint : String) → (payload : Value) → Reply Value

def call (cfg : YoutubeConfig) (post : Post) (endpoint : String)
    (body : List (String × Value)) : Except Error Value :=
  match post endpoint (payload cfg body) with
  | .unsent err => .error err
  | .status status => .error s!"YouTube {endpoint}: HTTP {status}"
  | .success none => .error s!"YouTube {endpoint}: bad JSON"
  | .success (some answer) => .ok answer

def make (words : String) (kind : PickKind) (v : Video) : Pick :=
  { kind := kind
    query := words
    videoId := v.id
    title := v.title
    channel := v.channel
    url := s!"https://www.youtube.com/watch?v={v.id}" }

/-- The newest long video of a channel. A failed request is only logged. -/
def channelLatest (up : Uppercase) (cfg : YoutubeConfig) (post : Post) (words : String)
    (ch : Channel) : Option Pick :=
  (stripPrefix "UC" ch.id).bind fun rest =>
    match call cfg post "browse" [("browseId", .string s!"VLUULF{rest}")] with
    | .ok answer =>
        ((parseUploads up answer).find? fun v => playable v && !v.live).map fun v =>
          { make words .channelLatest v with channel := ch.title }
    | .error _ => none

/-- What a search does with the search words. -/
def searchWords (u : Unicode) (up : Uppercase) (cfg : YoutubeConfig) (post : Post)
    (words : String) (genre : Bool) : Except Error (Option Pick) :=
  if words = "" then .ok none
  else
    match call cfg post "search" [("query", .string words)] with
    | .error err => .error err
    | .ok answer =>
        let items := parseSearch up answer
        let latest :=
          if genre then none
          else (matchingChannel u words items).bind (channelLatest up cfg post words)
        .ok (latest.or ((pickFromSearch items genre).map fun p => make words p.1 p.2))

/-- The video to play. Nothing at all when the query is cut inside a character. -/
def search (u : Unicode) (up : Uppercase) (cfg : YoutubeConfig) (post : Post) (query : String) :
    Option (Except Error (Option Pick)) :=
  (analyze u query).map fun p => searchWords u up cfg post (String.ofList p.1) p.2

section Names

theorem isSubsequence_iff (short long : List Char) :
    isSubsequence short long = true ↔ short.Sublist long := by
  induction long generalizing short with
  | nil =>
      rcases short with _ | ⟨c, short⟩
      · exact iff_of_true rfl (List.Sublist.refl [])
      · exact iff_of_false Bool.false_ne_true nofun
  | cons l long ih =>
      rcases short with _ | ⟨c, short⟩
      · exact iff_of_true rfl (List.nil_sublist _)
      · rw [isSubsequence]
        split
        · rename_i heq
          rw [ih, heq, List.cons_sublist_cons]
        · rename_i hne
          rw [ih]
          constructor
          · exact List.Sublist.cons l
          · intro h
            cases h with
            | cons _ h => exact h
            | cons_cons _ _ => exact absurd rfl hne

theorem utf8ByteSize_ofList_cons (c : Char) (l : List Char) :
    (String.ofList (c :: l)).utf8ByteSize = c.utf8Size + (String.ofList l).utf8ByteSize := by
  have hsplit : String.ofList (c :: l) = String.singleton c ++ String.ofList l := by
    rw [String.singleton_eq_ofList, ← String.ofList_append]
    rfl
  rw [hsplit, String.utf8ByteSize_append, String.utf8ByteSize_singleton]

theorem utf8ByteSize_le_of_sublist {l m : List Char} (h : l.Sublist m) :
    (String.ofList l).utf8ByteSize ≤ (String.ofList m).utf8ByteSize := by
  induction h with
  | slnil => exact le_rfl
  | cons c _ ih =>
      rw [utf8ByteSize_ofList_cons]
      omega
  | cons_cons c _ ih =>
      rw [utf8ByteSize_ofList_cons, utf8ByteSize_ofList_cons]
      omega

theorem utf8ByteSize_pos {s : String} (h : s ≠ "") : 0 < s.utf8ByteSize := by
  rw [Nat.pos_iff_ne_zero]
  intro hzero
  exact h (String.utf8ByteSize_eq_zero_iff.mp hzero)

/-- A query counts as a name when it is the name, or an abbreviation of it that has the same
first letter and seven tenths of its bytes. -/
theorem nameMatches_iff (query name : String) (hname : name.utf8ByteSize < 2 ^ 48) :
    nameMatches query name = true ↔
      query ≠ "" ∧ name ≠ "" ∧
        (query = name ∨ query.toList.head? = name.toList.head? ∧
          query.toList.Sublist name.toList ∧
            7 * name.utf8ByteSize ≤ 10 * query.utf8ByteSize) := by
  rw [nameMatches]
  split
  · rename_i hempty
    refine iff_of_false Bool.false_ne_true ?_
    rintro ⟨hquery, hsome, -⟩
    exact hempty.elim hquery hsome
  · rename_i hsome
    obtain ⟨hquery, hne⟩ := not_or.mp hsome
    split
    · rename_i heq
      exact iff_of_true rfl ⟨hquery, hne, Or.inl heq⟩
    · rename_i hother
      rw [Bool.and_eq_true, Bool.and_eq_true, decide_eq_true_iff, decide_eq_true_iff,
        isSubsequence_iff]
      have hshare : query.toList.Sublist name.toList →
          (abbreviationShare ≤ ratioF64 query.utf8ByteSize name.utf8ByteSize ↔
            7 * name.utf8ByteSize ≤ 10 * query.utf8ByteSize) := by
        intro hsub
        have hle := utf8ByteSize_le_of_sublist hsub
        rw [String.ofList_toList, String.ofList_toList] at hle
        have hcast : abbreviationShare = roundF64 ((7 : Nat) / (10 : Nat)) := by
          rw [abbreviationShare, Nat.cast_ofNat, Nat.cast_ofNat]
        rw [hcast]
        exact le_ratioF64_iff (by decide) (by decide) (utf8ByteSize_pos hquery)
          (utf8ByteSize_pos hne) (by omega) (by omega) (by omega)
      constructor
      · rintro ⟨⟨hhead, hsub⟩, hratio⟩
        exact ⟨hquery, hne, Or.inr ⟨hhead, hsub, (hshare hsub).mp hratio⟩⟩
      · rintro ⟨-, -, heq | ⟨hhead, hsub, hbytes⟩⟩
        · exact absurd heq hother
        · exact ⟨⟨hhead, hsub⟩, (hshare hsub).mpr hbytes⟩

theorem nameMatches_level1techs :
    nameMatches "lvl1techs" "level1techs" = true ↔
      "lvl1techs" ≠ "" ∧ "level1techs" ≠ "" ∧
        ("lvl1techs" = "level1techs" ∨
          "lvl1techs".toList.head? = "level1techs".toList.head? ∧
            "lvl1techs".toList.Sublist "level1techs".toList ∧
              7 * "level1techs".utf8ByteSize ≤ 10 * "lvl1techs".utf8ByteSize) :=
  nameMatches_iff "lvl1techs" "level1techs" (by decide)

end Names

section Slices

variable {u : Unicode}

/-- No other letter turns into one of the letters of the prefixes. -/
def KeepsPrefixes (u : Unicode) : Prop :=
  ∀ c : Char, 128 ≤ c.toNat → ∃ d rest, u.toLower c = d :: rest ∧ d ∉ "someany ".toList

theorem sliceFrom_of_prefix (hu : KeepsPrefixes u) {letters : List Char}
    (hletters : ∀ c ∈ letters, c ∈ "someany ".toList) {before q : List Char}
    (h : letters <+: u.toLowercaseFrom before q) :
    sliceFrom letters.length q = some (q.drop letters.length) := by
  induction letters generalizing before q with
  | nil => rw [List.length_nil, sliceFrom, List.drop_zero]
  | cons a letters ih =>
      rcases q with _ | ⟨c, q⟩
      · exact absurd h (by rw [Unicode.toLowercaseFrom, List.prefix_nil]; exact List.cons_ne_nil _ _)
      · have ha : a ∈ "someany ".toList := hletters a List.mem_cons_self
        rw [Unicode.toLowercaseFrom] at h
        by_cases hascii : c.toNat < 128
        · have hsigma : c ≠ 'Σ' := by
            rintro rfl
            exact absurd hascii (by decide)
          have hone : c.utf8Size = 1 := Char.utf8Size_eq_one_iff.mpr (Nat.lt_succ_iff.mp hascii)
          rw [if_neg hsigma, u.toLower_ascii c hascii] at h
          obtain ⟨-, hrest⟩ := List.cons_prefix_cons.mp h
          rw [List.length_cons, sliceFrom, hone, if_pos (by omega), List.drop_succ_cons]
          exact ih (fun d hd => hletters d (List.mem_cons_of_mem _ hd)) hrest
        · exfalso
          by_cases hsigma : c = 'Σ'
          · rw [if_pos hsigma] at h
            obtain ⟨rfl, -⟩ := List.cons_prefix_cons.mp h
            rw [Unicode.mapUppercaseSigma] at ha
            split at ha
            · exact absurd ha (by decide)
            · exact absurd ha (by decide)
          · obtain ⟨d, rest, hlower, hd⟩ := hu c (Nat.le_of_not_lt hascii)
            rw [if_neg hsigma, hlower] at h
            obtain ⟨rfl, -⟩ := List.cons_prefix_cons.mp h
            exact hd ha

theorem spec_of_mem_genrePrefixes : ∀ start ∈ genrePrefixes,
    start.utf8ByteSize = start.toList.length ∧ ∀ c ∈ start.toList, c ∈ "someany ".toList := by
  decide

theorem sliceFrom_genrePrefix (hu : KeepsPrefixes u) {start : String} {q : List Char}
    (hmem : start ∈ genrePrefixes) (h : start.toList.isPrefixOf (u.toLowercase q) = true) :
    sliceFrom start.utf8ByteSize q = some (q.drop start.toList.length) := by
  obtain ⟨hsize, hletters⟩ := spec_of_mem_genrePrefixes start hmem
  rw [hsize]
  exact sliceFrom_of_prefix hu hletters (List.isPrefixOf_iff_prefix.mp h)

/-- A query in any language is analyzed without a cut inside a character, and the words that
are left stand without whitespace at their ends. -/
theorem analyze_safe (hu : KeepsPrefixes u) (query : String) :
    ∃ words genre, analyze u query = some (words, genre) ∧
      (∀ c ∈ words.head?, isWhitespace c = false) ∧
        ∀ c ∈ words.getLast?, isWhitespace c = false := by
  have hends : ∀ l : List Char, (∀ c ∈ (trimEnds isWhitespace l).head?, isWhitespace c = false) ∧
      ∀ c ∈ (trimEnds isWhitespace l).getLast?, isWhitespace c = false :=
    fun _ => ⟨head?_trimEnds, getLast?_trimEnds⟩
  unfold analyze
  have hq := hends ((trimEnds isWhitespace query.toList).rdropWhile isSentenceEnd)
  generalize trimEnds isWhitespace
    ((trimEnds isWhitespace query.toList).rdropWhile isSentenceEnd) = q at hq ⊢
  dsimp only
  generalize hlower : u.toLowercase q = lower
  split
  · rename_i start hstart
    have hprefix := List.find?_some hstart
    rw [← hlower] at hprefix
    rw [sliceFrom_genrePrefix hu (List.mem_of_find?_eq_some hstart) hprefix]
    exact ⟨_, true, rfl, hends _⟩
  · exact ⟨q, _, rfl, hq⟩

theorem keepsPrefixes_asciiHan : KeepsPrefixes .asciiHan := by
  have hletters : ∀ d ∈ "someany ".toList, d.toNat < 128 := by decide
  intro c hc
  refine ⟨c.toLower, [], rfl, ?_⟩
  intro hmem
  have hlower := hletters _ hmem
  rw [toNat_toLower] at hlower
  split at hlower <;> omega

theorem analyze_safe_jazz :
    ∃ words genre, analyze .asciiHan "Some jazz!" = some (words, genre) ∧
      (∀ c ∈ words.head?, isWhitespace c = false) ∧
        ∀ c ∈ words.getLast?, isWhitespace c = false :=
  analyze_safe keepsPrefixes_asciiHan "Some jazz!"

end Slices

section Picks

/-- No Short, no premiere that is still to come, and longer than a minute. -/
structure Watchable (v : Video) : Prop where
  short : v.short = false
  upcoming : v.upcoming = false
  secs : ∀ d, v.durationSecs = some d → shortSecs < d

/-- What a pick says of its video. -/
structure Shows (p : Pick) (v : Video) : Prop where
  videoId : p.videoId = v.id
  title : p.title = v.title
  url : p.url = s!"https://www.youtube.com/watch?v={v.id}"

theorem shows_make (words : String) (kind : PickKind) (v : Video) : Shows (make words kind v) v :=
  ⟨rfl, rfl, rfl⟩

theorem watchable_of_playable {v : Video} (hmarked : v.Marked) (h : playable v = true) :
    Watchable v := by
  rw [playable, Bool.and_eq_true, Bool.not_eq_true', Bool.not_eq_true'] at h
  refine ⟨h.1, h.2, ?_⟩
  intro d hd
  rw [← not_le]
  intro hle
  rw [hmarked d hd hle] at h
  exact Bool.false_ne_true h.1.symm

theorem mem_playableVideos {items : List Item} {v : Video} :
    v ∈ playableVideos items ↔ Item.video v ∈ items ∧ playable v = true := by
  rw [playableVideos, List.mem_filterMap]
  constructor
  · rintro ⟨w | c, hmem, hsome⟩
    · dsimp only at hsome
      split at hsome
      · rename_i hplayable
        obtain rfl := Option.some.inj hsome
        exact ⟨hmem, hplayable⟩
      · cases hsome
    · cases hsome
  · rintro ⟨hmem, hplayable⟩
    exact ⟨.video v, hmem, if_pos hplayable⟩

theorem watchable_of_mem_parseSearch {up : Uppercase} {answer : Value} {v : Video}
    (h : v ∈ playableVideos (parseSearch up answer)) : Watchable v :=
  watchable_of_playable (marked_of_mem_parseSearch (mem_playableVideos.mp h).1)
    (mem_playableVideos.mp h).2

/-- The first video that plays. -/
def First (items : List Item) (kind : PickKind) (v : Video) : Prop :=
  (playableVideos items).head? = some v ∧ kind = if v.live then .live else .video

/-- The first video that lasts long enough for a genre. -/
def FirstLong (items : List Item) (kind : PickKind) (v : Video) : Prop :=
  (playableVideos items).find? isLong = some v ∧ kind = if v.live then .live else .mix

theorem firstVideo_eq_some {items : List Item} {kind : PickKind} {v : Video} :
    firstVideo items = some (kind, v) ↔ First items kind v := by
  rw [firstVideo, Option.map_eq_some_iff]
  constructor
  · rintro ⟨w, hw, heq⟩
    obtain ⟨rfl, rfl⟩ := Prod.mk.inj heq
    exact ⟨hw, rfl⟩
  · rintro ⟨hv, rfl⟩
    exact ⟨v, hv, rfl⟩

theorem pickFromSearch_eq_some {items : List Item} {genre : Bool} {kind : PickKind} {v : Video} :
    pickFromSearch items genre = some (kind, v) ↔
      genre = true ∧ FirstLong items kind v ∨
        (genre = true → ∀ w ∈ playableVideos items, isLong w = false) ∧ First items kind v := by
  rw [pickFromSearch]
  rcases genre with _ | _
  · rw [if_neg Bool.false_ne_true, firstVideo_eq_some]
    constructor
    · intro h
      exact Or.inr ⟨nofun, h⟩
    · rintro (⟨h, -⟩ | ⟨-, h⟩)
      · exact absurd h Bool.false_ne_true
      · exact h
  · rw [if_pos rfl]
    rcases hlong : (playableVideos items).find? isLong with _ | w
    · have hnone : ∀ w ∈ playableVideos items, isLong w = false := by
        intro w hw
        rw [← Bool.not_eq_true]
        exact List.find?_eq_none.mp hlong w hw
      dsimp only
      rw [firstVideo_eq_some]
      constructor
      · intro h
        exact Or.inr ⟨fun _ => hnone, h⟩
      · rintro (⟨-, h, -⟩ | ⟨-, h⟩)
        · rw [hlong] at h
          cases h
        · exact h
    · dsimp only
      constructor
      · intro h
        obtain ⟨rfl, rfl⟩ := Prod.mk.inj (Option.some.inj h)
        exact Or.inl ⟨rfl, hlong, rfl⟩
      · rintro (⟨-, h, rfl⟩ | ⟨h, -⟩)
        · rw [hlong] at h
          rw [Option.some.inj h]
        · have hfound := List.find?_some hlong
          rw [h rfl w (List.mem_of_find?_eq_some hlong)] at hfound
          exact absurd hfound Bool.false_ne_true

theorem mem_of_pickFromSearch {items : List Item} {genre : Bool} {kind : PickKind} {v : Video}
    (h : pickFromSearch items genre = some (kind, v)) : v ∈ playableVideos items := by
  rcases pickFromSearch_eq_some.mp h with ⟨-, hlong, -⟩ | ⟨-, hfirst, -⟩
  · exact List.mem_of_find?_eq_some hlong
  · exact List.mem_of_head? hfirst

variable (u : Unicode) (up : Uppercase) (cfg : YoutubeConfig) (post : Post)

/-- The newest video of the channel that has the name, livestreams left out. -/
def Newest (words : String) (items : List Item) (p : Pick) (v : Video) : Prop :=
  p.kind = .channelLatest ∧ ∃ ch rest uploads, matchingChannel u words items = some ch ∧
    stripPrefix "UC" ch.id = some rest ∧
      call cfg post "browse" [("browseId", .string s!"VLUULF{rest}")] = .ok uploads ∧
        (parseUploads up uploads).find? (fun v => playable v && !v.live) = some v ∧
          p.channel = ch.title

/-- A video of the search results: a long one for a genre, if there is one. -/
def Result (items : List Item) (genre : Bool) (p : Pick) (v : Video) : Prop :=
  p.channel = v.channel ∧
    (genre = true ∧ FirstLong items p.kind v ∨
      (genre = true → ∀ w ∈ playableVideos items, isLong w = false) ∧ First items p.kind v)

variable {u up cfg post}

theorem channelLatest_eq_some {words : String} {ch : Channel} {p : Pick}
    (h : channelLatest up cfg post words ch = some p) :
    ∃ rest uploads v, stripPrefix "UC" ch.id = some rest ∧
      call cfg post "browse" [("browseId", .string s!"VLUULF{rest}")] = .ok uploads ∧
        (parseUploads up uploads).find? (fun v => playable v && !v.live) = some v ∧
          p = { make words .channelLatest v with channel := ch.title } := by
  obtain ⟨rest, hrest, hcall⟩ := Option.bind_eq_some_iff.mp h
  rcases hanswer : call cfg post "browse" [("browseId", .string s!"VLUULF{rest}")] with
    err | uploads
  · rw [hanswer] at hcall
    cases hcall
  · rw [hanswer] at hcall
    obtain ⟨v, hv, rfl⟩ := Option.map_eq_some_iff.mp hcall
    exact ⟨rest, uploads, v, hrest, hanswer, hv, rfl⟩

theorem newest_of_channelLatest {words : String} {items : List Item} {ch : Channel} {p : Pick}
    (hch : matchingChannel u words items = some ch)
    (h : channelLatest up cfg post words ch = some p) :
    ∃ v, Watchable v ∧ Shows p v ∧ Newest u up cfg post words items p v := by
  obtain ⟨rest, uploads, v, hrest, hcall, hv, rfl⟩ := channelLatest_eq_some h
  have hfound := List.find?_some hv
  rw [Bool.and_eq_true] at hfound
  have hmarked := marked_of_mem_parseUploads (List.mem_of_find?_eq_some hv)
  exact ⟨v, watchable_of_playable hmarked hfound.1, ⟨rfl, rfl, rfl⟩, rfl, ch, rest, uploads,
    hch, hrest, hcall, hv, rfl⟩

theorem searchWords_eq_some {words : String} {genre : Bool} {p : Pick}
    (h : searchWords u up cfg post words genre = .ok (some p)) :
    ∃ answer v, call cfg post "search" [("query", .string words)] = .ok answer ∧
      Watchable v ∧ Shows p v ∧
        (genre = false ∧ Newest u up cfg post words (parseSearch up answer) p v ∨
          Result (parseSearch up answer) genre p v) := by
  rw [searchWords] at h
  split at h
  · cases h
  · rcases hanswer : call cfg post "search" [("query", .string words)] with err | answer
    · rw [hanswer] at h
      cases h
    · rw [hanswer] at h
      rcases Option.or_eq_some_iff.mp (Except.ok.inj h) with hlatest | ⟨-, hresult⟩
      · split at hlatest
        · cases hlatest
        · rename_i hgenre
          obtain ⟨ch, hch, hpick⟩ := Option.bind_eq_some_iff.mp hlatest
          obtain ⟨v, hwatch, hshows, hnewest⟩ := newest_of_channelLatest hch hpick
          exact ⟨answer, v, rfl, hwatch, hshows,
            Or.inl ⟨Bool.not_eq_true _ ▸ hgenre, hnewest⟩⟩
      · obtain ⟨⟨kind, v⟩, hpick, rfl⟩ := Option.map_eq_some_iff.mp hresult
        exact ⟨answer, v, rfl, watchable_of_mem_parseSearch (mem_of_pickFromSearch hpick),
          shows_make _ _ _, Or.inr ⟨rfl, pickFromSearch_eq_some.mp hpick⟩⟩

end Picks

def asciiUppercase : Uppercase where
  toUpper c := [c.toUpper]
  toUpper_ascii _ _ := rfl

def english : YoutubeConfig := ⟨"2.20250101.00.00", "en", "US"⟩

/-- One video of half an hour, and no uploads. -/
def catVideos : Post := fun endpoint _ =>
  if endpoint = "search" then
    .success (some (.object [("contents", .object [("twoColumnSearchResultsRenderer", .object
      [("primaryContents", .object [("sectionListRenderer", .object [("contents", .array
        [.object [("itemSectionRenderer", .object [("contents", .array
          [.object [("videoRenderer", .object [("videoId", .string "c1"),
            ("title", .object [("simpleText", .string "Cats")]),
            ("lengthText", .object [("simpleText", .string "28:14")])])]])])]])])])])])]))
  else .unsent "timed out"

def catPick : Pick :=
  ⟨.video, "cat videos", "c1", "Cats", "", "https://www.youtube.com/watch?v=c1"⟩

/-- Only the call for the results can fail a search. -/
theorem search_eq_error_iff (u : Unicode) (up : Uppercase) (cfg : YoutubeConfig) (post : Post)
    (query : String) (err : Error) :
    search u up cfg post query = some (.error err) ↔
      ∃ words genre, analyze u query = some (words, genre) ∧ String.ofList words ≠ "" ∧
        call cfg post "search" [("query", .string (String.ofList words))] = .error err := by
  have hwords : ∀ words genre, searchWords u up cfg post words genre = .error err ↔
      words ≠ "" ∧ call cfg post "search" [("query", .string words)] = .error err := by
    intro words genre
    rw [searchWords]
    split
    · rename_i hempty
      exact iff_of_false nofun fun h => h.1 hempty
    · rename_i hsome
      rcases call cfg post "search" [("query", .string words)] with e | answer
      · constructor
        · intro h
          exact ⟨hsome, congrArg _ (Except.error.inj h)⟩
        · rintro ⟨-, h⟩
          exact congrArg _ (Except.error.inj h)
      · exact iff_of_false nofun fun h => nomatch h.2
  rw [search, Option.map_eq_some_iff]
  constructor
  · rintro ⟨⟨words, genre⟩, hanalyze, hsearch⟩
    exact ⟨words, genre, hanalyze, (hwords _ _).mp hsearch⟩
  · rintro ⟨words, genre, hanalyze, hsearch⟩
    exact ⟨(words, genre), hanalyze, (hwords _ genre).mpr hsearch⟩

end AssistantHub.YoutubePicks
