import AssistantHub.EpisodeQueries
import AssistantHub.JsonValue
import Mathlib.Data.List.Infix

namespace AssistantHub.YoutubeAnswers

open AssistantHub.EpisodeQueries
open AssistantHub.JsonValue
open AssistantHub.RustText (trim)

/-- The table of `char::to_uppercase`. -/
structure Uppercase where
  toUpper : Char → List Char
  toUpper_ascii : ∀ c, c.toNat < 128 → toUpper c = [c.toUpper]

def Uppercase.toUppercase (up : Uppercase) (s : String) : String :=
  String.ofList (s.toList.flatMap up.toUpper)

def longMixSecs : Nat := 20 * 60

def shortSecs : Nat := 60

structure Video where
  id : String
  title : String
  channel : String
  durationSecs : Option Nat
  live : Bool
  upcoming : Bool
  short : Bool
  deriving DecidableEq, Repr

structure Channel where
  id : String
  title : String
  handle : String
  deriving DecidableEq, Repr

inductive Item where
  | video (v : Video)
  | channel (c : Channel)
  deriving DecidableEq, Repr

/-- The elements of an array, and none of anything else. -/
def elements (v : Value) : List Value := v.asArray.getD []

def text (v : Value) : Option String :=
  match (v.index "simpleText").asStr with
  | some s => some s
  | none =>
      match (v.index "content").asStr with
      | some s => some s
      | none => (v.index "runs").asArray.map fun runs =>
          String.join (runs.filterMap fun r => (r.index "text").asStr)

/-- One part more of a duration; the seconds are a `u32`. -/
def addPart (total : Nat) (part : List Char) : Option Nat :=
  if total * 60 < 2 ^ 32 then
    (parseU32 (String.ofList part)).bind fun n =>
      if total * 60 + n < 2 ^ 32 then some (total * 60 + n) else none
  else none

/-- "1:02:03" or "28:14" in seconds. -/
def parseDuration (s : String) : Option Nat := ((trim s).toList.splitOn ':').foldlM addPart 0

mutual

/-- Every value under `key` anywhere inside a value. -/
def findAll (key : String) : Value → List Value
  | .object fields => findInFields key fields
  | .array values => findInValues key values
  | _ => []

def findInFields (key : String) : List (String × Value) → List Value
  | [] => []
  | (k, child) :: fields =>
      (if k = key then [child] else []) ++ (findAll key child ++ findInFields key fields)

def findInValues (key : String) : List Value → List Value
  | [] => []
  | value :: values => findAll key value ++ findInValues key values

end

def hasStyle (style : String) (keys : List String) (v : Value) : Bool :=
  (v.indexAll keys).asStr = some style

def isShortSecs (durationSecs : Option Nat) : Bool := durationSecs.any fun d => d ≤ shortSecs

def videoRenderer (v : Value) : Option Video :=
  (v.index "videoId").asStr.map fun id =>
    let durationSecs := (text (v.index "lengthText")).bind parseDuration
    let url := ((v.indexAll ["navigationEndpoint", "commandMetadata", "webCommandMetadata",
      "url"]).asStr).getD ""
    { id := id
      title := (text (v.index "title")).getD ""
      channel := ((text (v.index "ownerText")).or (text (v.index "longBylineText"))).getD ""
      durationSecs := durationSecs
      live := (elements (v.index "badges")).any
          (hasStyle "BADGE_STYLE_TYPE_LIVE_NOW" ["metadataBadgeRenderer", "style"]) ||
        (elements (v.index "thumbnailOverlays")).any
          (hasStyle "LIVE" ["thumbnailOverlayTimeStatusRenderer", "style"])
      upcoming := !(v.index "upcomingEventData").isNull
      short := !(v.indexAll ["navigationEndpoint", "reelWatchEndpoint"]).isNull ||
        "/shorts/".toList.isPrefixOf url.toList || isShortSecs durationSecs }

def containsText (part s : String) : Bool := part.toList <:+: s.toList

def startsWith (start s : String) : Bool := start.toList.isPrefixOf s.toList

/-- The newer "lockup" layout, used for upload lists and some search results. -/
def lockup (up : Uppercase) (v : Value) : Option Video :=
  if (v.index "contentType").asStr ≠ some "LOCKUP_CONTENT_TYPE_VIDEO" then none
  else
    (v.index "contentId").asStr.map fun id =>
      let info := v.indexAll ["metadata", "lockupMetadataViewModel"]
      let badgeTexts := (findAll "thumbnailBadgeViewModel" (v.index "contentImage")).filterMap
        fun b => (b.index "text").asStr.map up.toUppercase
      let partTexts := ((findAll "metadataParts" (info.index "metadata")).flatMap
        elements).filterMap fun p => (p.indexAll ["text", "content"]).asStr
      let durationSecs := badgeTexts.findSome? parseDuration
      { id := id
        title := (text (info.index "title")).getD ""
        channel := partTexts.head?.getD ""
        durationSecs := durationSecs
        live := badgeTexts.any fun t => t = "LIVE"
        upcoming := (badgeTexts.any fun t =>
            containsText "UPCOMING" t || containsText "PREMIERE" t) ||
          partTexts.any fun t => startsWith "Premieres" t || startsWith "Scheduled" t
        short := isShortSecs durationSecs }

def channelRenderer (v : Value) : Option Channel :=
  (v.index "channelId").asStr.map fun id =>
    { id := id
      title := (text (v.index "title")).getD ""
      handle := String.ofList ((((v.indexAll ["navigationEndpoint", "browseEndpoint",
        "canonicalBaseUrl"]).asStr).getD "").toList.dropWhile fun c => c = '/') }

def sectionItems (sections : Value) : List Value :=
  ((elements sections).filterMap fun s =>
    (s.indexAll ["itemSectionRenderer", "contents"]).asArray).flatten

def searchItem (up : Uppercase) (item : Value) : Option Item :=
  match item.get "videoRenderer" with
  | some v => (videoRenderer v).map .video
  | none =>
      match item.get "channelRenderer" with
      | some c => (channelRenderer c).map .channel
      | none => (item.get "lockupViewModel").bind fun l => (lockup up l).map .video

/-- Channels and videos of a search answer, in YouTube's order. -/
def parseSearch (up : Uppercase) (answer : Value) : List Item :=
  (sectionItems (answer.indexAll ["contents", "twoColumnSearchResultsRenderer",
    "primaryContents", "sectionListRenderer", "contents"])).filterMap (searchItem up)

def uploadItem (up : Uppercase) (item : Value) : List Video :=
  match item.get "lockupViewModel" with
  | some l => (lockup up l).toList
  | none =>
      match item.get "playlistVideoRenderer" with
      | some p => (videoRenderer p).toList
      | none => (elements (item.indexAll ["playlistVideoListRenderer", "contents"])).filterMap
          fun i => videoRenderer (i.index "playlistVideoRenderer")

/-- Videos of an uploads playlist, newest first. -/
def parseUploads (up : Uppercase) (answer : Value) : List Video :=
  (elements (answer.indexAll ["contents", "twoColumnBrowseResultsRenderer", "tabs"])).flatMap
    fun tab => (sectionItems (tab.indexAll ["tabRenderer", "content", "sectionListRenderer",
      "contents"])).flatMap (uploadItem up)

section Inside

/-- The second value is under the key somewhere inside the first one. -/
inductive Under (key : String) : Value → Value → Prop where
  | here {fields : List (String × Value)} {child : Value} (h : (key, child) ∈ fields) :
      Under key (.object fields) child
  | field {fields : List (String × Value)} {k : String} {value child : Value}
      (hmem : (k, value) ∈ fields) (h : Under key value child) : Under key (.object fields) child
  | element {values : List Value} {value child : Value} (hmem : value ∈ values)
      (h : Under key value child) : Under key (.array values) child

variable {key : String} {child : Value}

mutual

theorem under_of_mem_findAll : (v : Value) → child ∈ findAll key v → Under key v child
  | .object fields, h => by
      rcases under_of_mem_findInFields fields h with hmem | ⟨p, hp, hunder⟩
      · exact Under.here hmem
      · exact Under.field hp hunder
  | .array values, h => by
      obtain ⟨value, hvalue, hunder⟩ := under_of_mem_findInValues values h
      exact Under.element hvalue hunder
  | .null, h => by cases h
  | .bool _, h => by cases h
  | .number _, h => by cases h
  | .string _, h => by cases h

theorem under_of_mem_findInFields : (fields : List (String × Value)) →
    child ∈ findInFields key fields →
      (key, child) ∈ fields ∨ ∃ p ∈ fields, Under key p.2 child
  | [], h => by cases h
  | (k, value) :: fields, h => by
      rcases List.mem_append.mp h with hhere | hrest
      · split at hhere
        · rename_i hk
          obtain rfl := List.mem_singleton.mp hhere
          exact Or.inl (hk ▸ List.mem_cons_self)
        · cases hhere
      · rcases List.mem_append.mp hrest with hvalue | hfields
        · exact Or.inr ⟨(k, value), List.mem_cons_self, under_of_mem_findAll value hvalue⟩
        · rcases under_of_mem_findInFields fields hfields with hmem | ⟨p, hp, hunder⟩
          · exact Or.inl (List.mem_cons_of_mem _ hmem)
          · exact Or.inr ⟨p, List.mem_cons_of_mem _ hp, hunder⟩

theorem under_of_mem_findInValues : (values : List Value) → child ∈ findInValues key values →
    ∃ value ∈ values, Under key value child
  | [], h => by cases h
  | value :: values, h => by
      rcases List.mem_append.mp h with hvalue | hvalues
      · exact ⟨value, List.mem_cons_self, under_of_mem_findAll value hvalue⟩
      · obtain ⟨w, hw, hunder⟩ := under_of_mem_findInValues values hvalues
        exact ⟨w, List.mem_cons_of_mem _ hw, hunder⟩

end

theorem mem_findInFields_here {fields : List (String × Value)} (hmem : (key, child) ∈ fields) :
    child ∈ findInFields key fields := by
  induction fields with
  | nil => cases hmem
  | cons p fields ih =>
      rcases List.mem_cons.mp hmem with rfl | hlater
      · refine List.mem_append_left _ ?_
        rw [if_pos rfl]
        exact List.mem_singleton_self child
      · exact List.mem_append_right _ (List.mem_append_right _ (ih hlater))

theorem mem_findInFields_inside {fields : List (String × Value)} {k : String} {value : Value}
    (hmem : (k, value) ∈ fields) (h : child ∈ findAll key value) :
    child ∈ findInFields key fields := by
  induction fields with
  | nil => cases hmem
  | cons p fields ih =>
      rcases List.mem_cons.mp hmem with rfl | hlater
      · exact List.mem_append_right _ (List.mem_append_left _ h)
      · exact List.mem_append_right _ (List.mem_append_right _ (ih hlater))

theorem mem_findInValues_of_mem {values : List Value} {value : Value} (hmem : value ∈ values)
    (h : child ∈ findAll key value) : child ∈ findInValues key values := by
  induction values with
  | nil => cases hmem
  | cons w values ih =>
      rcases List.mem_cons.mp hmem with rfl | hlater
      · exact List.mem_append_left _ h
      · exact List.mem_append_right _ (ih hlater)

/-- The search misses no depth and takes nothing else. -/
theorem mem_findAll_iff (v : Value) : child ∈ findAll key v ↔ Under key v child := by
  constructor
  · exact under_of_mem_findAll v
  · intro h
    induction h with
    | here h => exact mem_findInFields_here h
    | field hmem h ih => exact mem_findInFields_inside hmem ih
    | element hmem h ih => exact mem_findInValues_of_mem hmem ih

end Inside

section Durations

/-- The seconds of hours, minutes and so on. -/
def seconds (total : Nat) (ns : List Nat) : Nat := ns.foldl (fun total n => total * 60 + n) total

theorem le_seconds (ns : List Nat) (total : Nat) : total ≤ seconds total ns := by
  induction ns generalizing total with
  | nil => exact le_rfl
  | cons n ns ih =>
      calc total ≤ total * 60 + n := by omega
        _ ≤ seconds (total * 60 + n) ns := ih _

theorem addPart_eq_some {total m : Nat} {part : List Char} :
    addPart total part = some m ↔
      ∃ n, parseU32 (String.ofList part) = some n ∧ m = total * 60 + n ∧ m < 2 ^ 32 := by
  rw [addPart]
  split
  · rw [Option.bind_eq_some_iff]
    constructor
    · rintro ⟨n, hn, hsome⟩
      split at hsome
      · rename_i hlt
        obtain rfl := Option.some.inj hsome
        exact ⟨n, hn, rfl, hlt⟩
      · cases hsome
    · rintro ⟨n, hn, rfl, hlt⟩
      exact ⟨n, hn, if_pos hlt⟩
  · rename_i hlarge
    constructor
    · intro hsome
      cases hsome
    · rintro ⟨n, -, rfl, hlt⟩
      omega

/-- A sum that is too large stays so. -/
theorem foldlM_addPart {parts : List (List Char)} {total m : Nat} (htotal : total < 2 ^ 32) :
    parts.foldlM addPart total = some m ↔
      ∃ ns, List.Forall₂ (fun part n => parseU32 (String.ofList part) = some n) parts ns ∧
        m = seconds total ns ∧ m < 2 ^ 32 := by
  induction parts generalizing total with
  | nil =>
      rw [List.foldlM_nil]
      constructor
      · intro h
        obtain rfl := Option.some.inj h
        exact ⟨[], List.Forall₂.nil, rfl, htotal⟩
      · rintro ⟨ns, hns, rfl, -⟩
        obtain rfl := List.forall₂_nil_left_iff.mp hns
        rfl
  | cons part parts ih =>
      rw [List.foldlM_cons]
      show (addPart total part).bind _ = some m ↔ _
      rw [Option.bind_eq_some_iff]
      constructor
      · rintro ⟨sum, hsum, hrest⟩
        obtain ⟨n, hn, rfl, hlt⟩ := addPart_eq_some.mp hsum
        obtain ⟨ns, hns, rfl, hm⟩ := (ih hlt).mp hrest
        exact ⟨n :: ns, List.Forall₂.cons hn hns, rfl, hm⟩
      · rintro ⟨ns, hns, rfl, hm⟩
        obtain ⟨n, rest, hn, hrest, rfl⟩ := List.forall₂_cons_left_iff.mp hns
        have hlt : total * 60 + n < 2 ^ 32 := lt_of_le_of_lt (le_seconds rest _) hm
        exact ⟨total * 60 + n, addPart_eq_some.mpr ⟨n, hn, rfl, hlt⟩,
          (ih hlt).mpr ⟨rest, hrest, rfl, hm⟩⟩

/-- A duration is read exactly when all its parts are numbers and the seconds fit. -/
theorem parseDuration_iff (s : String) (m : Nat) :
    parseDuration s = some m ↔
      ∃ ns, List.Forall₂ (fun part n => parseU32 (String.ofList part) = some n)
        ((trim s).toList.splitOn ':') ns ∧ m = seconds 0 ns ∧ m < 2 ^ 32 :=
  foldlM_addPart (by decide)

example : parseDuration "1:02:03" = some 3723 := by decide

end Durations

section Brief

/-- A video of a minute or less counts as a Short. -/
def Video.Marked (v : Video) : Prop := ∀ d, v.durationSecs = some d → d ≤ shortSecs → v.short = true

theorem isShortSecs_of_le {durationSecs : Option Nat} {d : Nat} (h : durationSecs = some d)
    (hd : d ≤ shortSecs) : isShortSecs durationSecs = true := by
  rw [h]
  exact decide_eq_true hd

theorem marked_of_videoRenderer {value : Value} {v : Video} (h : videoRenderer value = some v) :
    v.Marked := by
  obtain ⟨id, -, rfl⟩ := Option.map_eq_some_iff.mp h
  intro d hd hle
  exact (Bool.or_eq_true _ _).mpr (Or.inr (isShortSecs_of_le hd hle))

theorem marked_of_lockup {up : Uppercase} {value : Value} {v : Video}
    (h : lockup up value = some v) : v.Marked := by
  rw [lockup] at h
  split at h
  · cases h
  · obtain ⟨id, -, rfl⟩ := Option.map_eq_some_iff.mp h
    intro d hd hle
    exact isShortSecs_of_le hd hle

theorem marked_of_mem_parseSearch {up : Uppercase} {answer : Value} {v : Video}
    (h : Item.video v ∈ parseSearch up answer) : v.Marked := by
  obtain ⟨item, -, hitem⟩ := List.mem_filterMap.mp h
  rw [searchItem] at hitem
  split at hitem
  · obtain ⟨w, hw, heq⟩ := Option.map_eq_some_iff.mp hitem
    obtain rfl := Item.video.inj heq
    exact marked_of_videoRenderer hw
  · split at hitem
    · obtain ⟨c, -, heq⟩ := Option.map_eq_some_iff.mp hitem
      cases heq
    · obtain ⟨l, -, hl⟩ := Option.bind_eq_some_iff.mp hitem
      obtain ⟨w, hw, heq⟩ := Option.map_eq_some_iff.mp hl
      obtain rfl := Item.video.inj heq
      exact marked_of_lockup hw

theorem marked_of_mem_parseUploads {up : Uppercase} {answer : Value} {v : Video}
    (h : v ∈ parseUploads up answer) : v.Marked := by
  obtain ⟨tab, -, htab⟩ := List.mem_flatMap.mp h
  obtain ⟨item, -, hitem⟩ := List.mem_flatMap.mp htab
  rw [uploadItem] at hitem
  split at hitem
  · exact marked_of_lockup (Option.mem_toList.mp hitem)
  · split at hitem
    · exact marked_of_videoRenderer (Option.mem_toList.mp hitem)
    · obtain ⟨i, -, hi⟩ := List.mem_filterMap.mp hitem
      exact marked_of_videoRenderer hi

end Brief

end AssistantHub.YoutubeAnswers
