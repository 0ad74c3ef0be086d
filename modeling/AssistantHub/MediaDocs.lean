import AssistantHub.IndexStore
import AssistantHub.JsonValue
import AssistantHub.RustText

namespace AssistantHub.MediaDocs

open AssistantHub.IndexStore
open AssistantHub.JsonValue
open AssistantHub.RustText

def DOC_VERSION : Nat := 1

def OVERVIEW_CHARS : Nat := 800

def ACTORS : Nat := 5

def WORK_FIELDS : String :=
  "Overview,Genres,People,ProductionYear,OriginalTitle"

def EPISODE_FIELDS : String := "Overview"

/-- An item ready for embedding. -/
structure Doc where
  entry : Entry
  text : String
  deriving DecidableEq

def cut (text : String) (max : Nat) : String :=
  let text := " ".intercalate (splitWhitespace text)
  if text.toList.length ≤ max then text
  else
    let chars := text.toList.take max
    match beforeLastSpace chars with
    | some head => String.ofList head ++ "…"
    | none => String.ofList chars

def strings (v : Value) : List String :=
  (v.asArray.getD []).filterMap Value.asStr

def documentText (title text : String) : String :=
  s!"title: {title} | text: {text}"

def workParts (what name : String) (item : Value) : List String :=
  let year :=
    match (item.index "ProductionYear").asI64 with
    | some y => s!"{what}, {y}"
    | none => what
  let original :=
    match (item.index "OriginalTitle").asStr with
    | some orig =>
        if trim orig ≠ "" ∧ trim orig ≠ name then
          [s!"Original title: {trim orig}"]
        else []
    | none => []
  let genres := strings (item.index "Genres")
  let actors :=
    ((((item.index "People").asArray.getD []).filter fun p =>
      (p.index "Type").asStr = some "Actor").filterMap fun p =>
        (p.index "Name").asStr).take ACTORS
  year :: original ++
    (if genres = [] then [] else ["Genres: " ++ ", ".intercalate genres]) ++
    (if actors = [] then [] else ["Starring " ++ ", ".intercalate actors])

def episodeWhat (series : String) (item : Value) : String :=
  let number :=
    match (item.index "IndexNumber").asI64 with
    | some e => s!" {e}"
    | none => ""
  let season :=
    match (item.index "ParentIndexNumber").asI64 with
    | some s => s!" of season {s}"
    | none => ""
  "Episode" ++ number ++ season ++
    if series = "" then "" else s!" of {series}"

/-- The parts of a document that depend on its kind. -/
structure Head where
  title : String
  parts : List String
  seriesId : Option String
  seriesName : Option String

def documentHead (kind : Kind) (name : String) (item : Value) : Head :=
  match kind with
  | .series => ⟨name, workParts "Series" name item, none, none⟩
  | .movie => ⟨name, workParts "Movie" name item, none, none⟩
  | .episode =>
      let series := trim ((item.index "SeriesName").asStr.getD "")
      { title := if series = "" then name else s!"{series}: {name}"
        parts := [episodeWhat series item]
        seriesId := (item.index "SeriesId").asStr
        seriesName := if series = "" then none else some series }

def itemName (item : Value) : Option String :=
  ((item.index "Name").asStr.filter fun n => trim n ≠ "").map trim

def embeddedText (kind : Kind) (name : String) (item : Value) : String :=
  let overview := cut ((item.index "Overview").asStr.getD "") OVERVIEW_CHARS
  let head := documentHead kind name item
  let parts := head.parts ++ if overview = "" then [] else [overview]
  documentText head.title
    (String.ofList (replaceDots (". ".intercalate parts ++ ".").toList))

/-- The document of a Jellyfin series, movie or episode. None for other types
and for items without a name. -/
def document (item : Value) : Option Doc :=
  ((item.index "Type").asStr.bind Kind.fromJellyfin).bind fun kind =>
    (item.index "Id").asStr.bind fun id =>
      (itemName item).map fun name =>
        { entry :=
            { id := id
              kind := kind
              name := name
              seriesId := (documentHead kind name item).seriesId
              seriesName := (documentHead kind name item).seriesName
              hash := fnv1a (embeddedText kind name item) }
          text := embeddedText kind name item }

/-- Item IDs from a `LibraryChanged` message of Jellyfin's WebSocket. -/
structure Changes where
  changed : List String
  removed : List String
  deriving DecidableEq

def Changes.isEmpty (c : Changes) : Bool := c.changed.isEmpty && c.removed.isEmpty

/-- `Vec::dedup`: the later ones of neighbours that are equal go away. -/
def dedup : List String → List String
  | [] => []
  | id :: ids =>
      match dedup ids with
      | [] => [id]
      | next :: rest => if id = next then next :: rest else id :: next :: rest

def messageIds (message : Value) (key : String) : List String :=
  strings ((message.index "Data").index key)

/-- Parses one WebSocket message. None for other message types. -/
def libraryChanges (message : Value) : Option Changes :=
  if (message.index "MessageType").asStr ≠ some "LibraryChanged" then none
  else
    some
      { changed := dedup ((messageIds message "ItemsAdded" ++
          messageIds message "ItemsUpdated").mergeSort fun a b => a ≤ b)
        removed := messageIds message "ItemsRemoved" }

theorem document_eq_some {item : Value} {d : Doc} (h : document item = some d) :
    (item.index "Type").asStr.bind Kind.fromJellyfin = some d.entry.kind ∧
      (item.index "Id").asStr = some d.entry.id ∧
      itemName item = some d.entry.name ∧ d.entry.hash = fnv1a d.text := by
  obtain ⟨kind, hkind, h⟩ := Option.bind_eq_some_iff.mp h
  obtain ⟨id, hid, h⟩ := Option.bind_eq_some_iff.mp h
  obtain ⟨name, hname, rfl⟩ := Option.map_eq_some_iff.mp h
  exact ⟨hkind, hid, hname, rfl⟩

theorem kind_document {item : Value} {d : Doc} (h : document item = some d) :
    (item.index "Type").asStr.bind Kind.fromJellyfin = some d.entry.kind :=
  (document_eq_some h).1

theorem id_document {item : Value} {d : Doc} (h : document item = some d) :
    (item.index "Id").asStr = some d.entry.id :=
  (document_eq_some h).2.1

theorem hash_document {item : Value} {d : Doc} (h : document item = some d) :
    d.entry.hash = fnv1a d.text :=
  (document_eq_some h).2.2.2

/-- The fields of an item that the document of a kind is made from. -/
def readFields : Kind → List String
  | .series | .movie =>
      ["Type", "Id", "Name", "Overview", "ProductionYear", "OriginalTitle",
        "Genres", "People"]
  | .episode =>
      ["Type", "Id", "Name", "Overview", "SeriesName", "SeriesId",
        "IndexNumber", "ParentIndexNumber"]

theorem documentHead_congr {kind : Kind} (name : String) {item item' : Value}
    (h : ∀ key ∈ readFields kind, item.index key = item'.index key) :
    documentHead kind name item = documentHead kind name item' := by
  have hparts : ∀ what, kind ≠ .episode →
      workParts what name item = workParts what name item' := by
    intro what hkind
    have hwork : ∀ key ∈ readFields .series, item.index key = item'.index key := by
      cases kind with
      | series => exact h
      | movie => exact h
      | episode => exact absurd rfl hkind
    simp only [readFields, List.forall_mem_cons] at hwork
    obtain ⟨-, -, -, -, hyear, horiginal, hgenres, hpeople, -⟩ := hwork
    simp only [workParts, hyear, horiginal, hgenres, hpeople]
  cases kind with
  | series => rw [documentHead, documentHead, hparts _ (by simp)]
  | movie => rw [documentHead, documentHead, hparts _ (by simp)]
  | episode =>
      simp only [readFields, List.forall_mem_cons] at h
      obtain ⟨-, -, -, -, hname, hseries, hnumber, hseason, -⟩ := h
      simp only [documentHead, episodeWhat, hname, hseries, hnumber, hseason]

/-- An item that is sent without the fields that its document does not read
has the same document. -/
theorem document_congr {item item' : Value}
    (htype : item.index "Type" = item'.index "Type")
    (h : ∀ kind, (item.index "Type").asStr.bind Kind.fromJellyfin = some kind →
      ∀ key ∈ readFields kind, item.index key = item'.index key) :
    document item = document item' := by
  rw [document, document, htype]
  cases hkind : (item'.index "Type").asStr.bind Kind.fromJellyfin with
  | none => rfl
  | some kind =>
      have hread := h kind (by rw [htype, hkind])
      have hhead := fun name => documentHead_congr name hread
      have hid : item.index "Id" = item'.index "Id" :=
        hread _ (by cases kind <;> simp [readFields])
      have hname : item.index "Name" = item'.index "Name" :=
        hread _ (by cases kind <;> simp [readFields])
      have hoverview : item.index "Overview" = item'.index "Overview" :=
        hread _ (by cases kind <;> simp [readFields])
      simp only [Option.bind_some, embeddedText, itemName, hid, hname,
        hoverview, hhead]

theorem mem_dedup (id : String) (ids : List String) : id ∈ dedup ids ↔ id ∈ ids := by
  induction ids with
  | nil => rfl
  | cons first ids ih =>
      rw [dedup, List.mem_cons, ← ih]
      split
      · rename_i hnil
        simp [hnil]
      · rename_i next rest hrest
        split
        · rename_i heq
          rw [hrest, heq]
          simp
        · rw [hrest, List.mem_cons]

/-- A message names every added and every updated item as changed. -/
theorem mem_changed_libraryChanges {message : Value} {c : Changes}
    (h : libraryChanges message = some c) (id : String) :
    id ∈ c.changed ↔
      id ∈ messageIds message "ItemsAdded" ∨
        id ∈ messageIds message "ItemsUpdated" := by
  rw [libraryChanges] at h
  split at h
  · cases h
  · obtain rfl := Option.some.inj h
    rw [mem_dedup, List.mem_mergeSort, List.mem_append]

end AssistantHub.MediaDocs
