import AssistantHub.Chunks
import AssistantHub.Fallible
import AssistantHub.IndexFiles
import AssistantHub.JellyfinItems

namespace AssistantHub.MediaSync

open AssistantHub.Chunks
open AssistantHub.Fallible
open AssistantHub.F32Bytes
open AssistantHub.HeaderEncoding
open AssistantHub.IndexFiles
open AssistantHub.IndexStore
open AssistantHub.JellyfinItems
open AssistantHub.JsonValue
open AssistantHub.KeyedTable
open AssistantHub.MediaDocs

def PAGE : Nat := 1000

def BATCH : Nat := 16

def SAVE_EVERY : Nat := 512

/-- `model` is the file name of the model. -/
structure MediaConfig where
  model : String
  dims : Nat
  episodes : Bool

inductive State where
  | loadingModel
  | indexing (done total : Nat)
  | ready
  | failed (error : Error)
  deriving DecidableEq

/-- The media index with the directory it saves to. `saves` counts the saves
that finished and `embedded` lists the texts that the embedder answered. -/
structure MediaIndex where
  cfg : MediaConfig
  index : Index F32
  worker : Bool
  state : State
  lastFullSync : Option Nat
  dir : Dir
  saves : Nat
  embedded : List String

def MediaConfig.fingerprint (cfg : MediaConfig) : String :=
  s!"{cfg.model}|dims={cfg.dims}|doc={DOC_VERSION}|episodes={cfg.episodes}"

def MediaIndex.new (cfg : MediaConfig) (dir : Dir) : MediaIndex :=
  { cfg := cfg
    index := Index.new cfg.dims
    worker := false
    state := .loadingModel
    lastFullSync := none
    dir := dir
    saves := 0
    embedded := [] }

/-- What the outside does during one call: the embedder's answer to its `n`th
batch, the fault of its `n`th save if that fails, and the time. -/
structure Io where
  embed : Nat → List String → Except Error (List (List F32))
  saveFault : Nat → Option SaveFault
  now : Nat

/-- The connection is gone after the answers of a call. -/
def noAnswer : Error := "error sending request"

def loadIndex (json : HeaderJson) (m : MediaIndex) : Option (Index F32) :=
  Index.load json m.dir m.cfg.fingerprint m.cfg.dims

def save (json : HeaderJson) (fault : Option SaveFault) (m : MediaIndex) :
    Except Error Unit × MediaIndex :=
  let saved := Index.save json m.index m.cfg.fingerprint fault m.dir
  (saved.1, { m with
    dir := saved.2
    saves := if fault.isNone then m.saves + 1 else m.saves })

def upsertAll : List (Doc × List F32) → Index F32 → Except Error Unit × Index F32
  | [], ix => (.ok (), ix)
  | (doc, v) :: rest, ix => andThen (ix.upsert doc.entry v) (upsertAll rest)

def embedBatch (io : Io) (total n : Nat) (batch : List Doc) (m : MediaIndex) :
    Except Error Unit × MediaIndex :=
  let m := { m with state := .indexing (n * BATCH) total }
  match io.embed n (batch.map Doc.text) with
  | .error err => (.error err, m)
  | .ok vectors =>
      let stored := upsertAll (batch.zip vectors) m.index
      (stored.1, { m with
        index := stored.2
        embedded := m.embedded ++ batch.map Doc.text })

/-- The batches from number `n` on; `k` saves were tried so far. -/
def embedBatches (json : HeaderJson) (io : Io) (total : Nat) :
    (n k sinceSave : Nat) → List (List Doc) → MediaIndex →
      Except Error Unit × MediaIndex
  | _, k, _, [], m => save json (io.saveFault k) m
  | n, k, sinceSave, batch :: batches, m =>
      andThen (embedBatch io total n batch m) fun m =>
        if sinceSave + batch.length ≥ SAVE_EVERY then
          andThen (save json (io.saveFault k) m)
            (embedBatches json io total (n + 1) (k + 1) 0 batches)
        else
          embedBatches json io total (n + 1) k (sinceSave + batch.length)
            batches m

def embedAndStore (json : HeaderJson) (io : Io) (todo : List Doc)
    (m : MediaIndex) : Except Error Unit × MediaIndex :=
  if todo = [] then (.ok (), m)
  else if m.worker = false then (.error "embedder not loaded", m)
  else embedBatches json io todo.length 0 0 0 (chunks BATCH todo) m

/-- The items of all pages, after those that were read before. -/
def fetchAll (types fields : String) :
    List Answer → List Value → Except Error (List Value)
  | [], _ => .error noAnswer
  | answer :: answers, all =>
      match itemsPage answer types fields all.length PAGE none with
      | .error err => .error err
      | .ok (items, total) =>
          let all := all ++ items
          if items.length = 0 ∨ all.length ≥ total then .ok all
          else fetchAll types fields answers all

def fetchItems (cfg : MediaConfig) (works episodes : List Answer) :
    Except Error (List Value) :=
  match fetchAll "Series,Movie" WORK_FIELDS works [] with
  | .error err => .error err
  | .ok items =>
      if cfg.episodes then
        (fetchAll "Episode" EPISODE_FIELDS episodes []).map (items ++ ·)
      else .ok items

def needsEmbedding (ix : Index F32) (d : Doc) : Bool :=
  (ix.get d.entry.id).map Entry.hash ≠ some d.entry.hash

def goneIds (ix : Index F32) (docs : List Doc) : List String :=
  (ix.entries.map Entry.id).filter fun id => id ∉ docs.map fun d => d.entry.id

def todo (ix : Index F32) (ids : List String) (docs : List Doc) : List Doc :=
  docs.filter (needsEmbedding (ix.remove ids).2)

/-- The end of `full_sync` and of `apply`: remove, embed what is new, and save
when there was only something to remove. -/
def storeChanges (json : HeaderJson) (io : Io) (ids : List String)
    (docs : List Doc) (m : MediaIndex) : Except Error Unit × MediaIndex :=
  let removed := (m.index.remove ids).1
  let todo := todo m.index ids docs
  andThen (embedAndStore json io todo
      { m with index := (m.index.remove ids).2 }) fun m =>
    if removed > 0 ∧ todo = [] then save json (io.saveFault 0) m
    else (.ok (), m)

def fullSync (json : HeaderJson) (io : Io) (works episodes : List Answer)
    (m : MediaIndex) : Except Error Unit × MediaIndex :=
  match fetchItems m.cfg works episodes with
  | .error err => (.error err, m)
  | .ok items =>
      let docs := items.filterMap document
      andThen (storeChanges json io (goneIds m.index docs) docs m) fun m =>
        (.ok (), { m with lastFullSync := some io.now, state := .ready })

def fetchChanged (types fields : String) :
    List Answer → List (List String) → Except Error (List Doc)
  | _, [] => .ok []
  | [], _ :: _ => .error noAnswer
  | answer :: answers, chunk :: rest =>
      match itemsPage answer types fields 0 chunk.length
          (some (",".intercalate chunk)) with
      | .error err => .error err
      | .ok (items, _) =>
          (fetchChanged types fields answers rest).map
            (items.filterMap document ++ ·)

def changeTypes (cfg : MediaConfig) : String :=
  if cfg.episodes then "Series,Movie,Episode" else "Series,Movie"

def changeFields : String := s!"{WORK_FIELDS},{EPISODE_FIELDS}"

def apply (json : HeaderJson) (io : Io) (answers : List Answer)
    (changes : Changes) (m : MediaIndex) : Except Error Unit × MediaIndex :=
  match fetchChanged (changeTypes m.cfg) changeFields answers
      (chunks 100 changes.changed) with
  | .error err => (.error err, m)
  | .ok docs => storeChanges json io changes.removed docs m

end AssistantHub.MediaSync
