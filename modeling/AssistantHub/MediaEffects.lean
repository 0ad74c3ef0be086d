import AssistantHub.MediaSync
import Mathlib.Logic.Relation

namespace AssistantHub.MediaEffects

open AssistantHub.Chunks
open AssistantHub.F32Bytes
open AssistantHub.Fallible
open AssistantHub.HeaderEncoding
open AssistantHub.IndexFiles
open AssistantHub.IndexStore
open AssistantHub.KeyedTable
open AssistantHub.MediaDocs
open AssistantHub.MediaSync

/-- The embedder answered the text with the vector in some call. -/
def Answered (io : Io) (text : String) (v : List F32) : Prop :=
  ∃ n texts vectors, io.embed n texts = .ok vectors ∧
    (text, v) ∈ texts.zip vectors

/-- What a single step of `embed_and_store` can do. -/
inductive Effect (json : HeaderJson) (io : Io) (todo : List Doc) :
    MediaIndex → MediaIndex → Prop where
  | indexing (m : MediaIndex) (done total : Nat) :
      Effect json io todo m { m with state := .indexing done total }
  | answered (m : MediaIndex) (batch : List Doc) :
      Effect json io todo m
        { m with embedded := m.embedded ++ batch.map Doc.text }
  | upsert (m : MediaIndex) (d : Doc) (v : List F32) :
      d ∈ todo → d.text ∈ m.embedded → Answered io d.text v →
      Effect json io todo m { m with index := (m.index.upsert d.entry v).2 }
  | save (m : MediaIndex) (fault : Option SaveFault) :
      Effect json io todo m (MediaSync.save json fault m).2

abbrev Effects (json : HeaderJson) (io : Io) (todo : List Doc) :
    MediaIndex → MediaIndex → Prop :=
  Relation.ReflTransGen (Effect json io todo)

theorem effects_upsertAll {json : HeaderJson} {io : Io} {todo : List Doc}
    {pairs : List (Doc × List F32)} {m : MediaIndex}
    (h : ∀ p ∈ pairs, p.1 ∈ todo ∧ p.1.text ∈ m.embedded ∧
      Answered io p.1.text p.2) :
    Effects json io todo m
      { m with index := (upsertAll pairs m.index).2 } := by
  induction pairs generalizing m with
  | nil => exact .refl
  | cons p pairs ih =>
      obtain ⟨d, v⟩ := p
      obtain ⟨hd, htext, hanswered⟩ := h _ List.mem_cons_self
      have hfirst : Effects json io todo m
          { m with index := (m.index.upsert d.entry v).2 } :=
        .single (.upsert m d v hd htext hanswered)
      refine andThen_snd (p := fun ix => Effects json io todo m
        { m with index := ix }) hfirst ?_
      intro _
      refine hfirst.trans (ih (m := { m with
        index := (m.index.upsert d.entry v).2 }) ?_)
      intro q hq
      exact h q (List.mem_cons_of_mem _ hq)

theorem effects_batch_upserts {json : HeaderJson} {io : Io}
    {todo batch : List Doc} (hbatch : ∀ d ∈ batch, d ∈ todo) {n : Nat}
    {vectors : List (List F32)}
    (hembed : io.embed n (batch.map Doc.text) = .ok vectors) {m : MediaIndex}
    (hembedded : ∀ d ∈ batch, d.text ∈ m.embedded)
    {upserts : List (Doc × List F32)} (hupserts : upserts ⊆ batch.zip vectors) :
    Effects json io todo m
      { m with index := (upsertAll upserts m.index).2 } := by
  apply effects_upsertAll
  rintro ⟨d, v⟩ hp
  have hzip := hupserts hp
  have hd : d ∈ batch := (List.of_mem_zip hzip).1
  refine ⟨hbatch d hd, hembedded d hd, n, _, vectors, hembed, ?_⟩
  rw [List.zip_map_left]
  exact List.mem_map_of_mem (f := Prod.map Doc.text id) hzip

theorem effects_embedBatch {json : HeaderJson} {io : Io} {todo batch : List Doc}
    (hbatch : ∀ d ∈ batch, d ∈ todo) (total n : Nat) (m : MediaIndex) :
    Effects json io todo m (embedBatch io total n batch m).2 := by
  have hstate : Effects json io todo m
      { m with state := .indexing (n * BATCH) total } :=
    .single (.indexing m _ _)
  rw [embedBatch]
  cases hembed : io.embed n (batch.map Doc.text) with
  | error err => exact hstate
  | ok vectors =>
      have hanswered : Effects json io todo m
          { m with
            state := .indexing (n * BATCH) total
            embedded := m.embedded ++ batch.map Doc.text } :=
        hstate.tail (.answered _ batch)
      exact hanswered.trans (effects_batch_upserts hbatch hembed
        (fun d hd => List.mem_append_right _ (List.mem_map_of_mem hd))
        (List.Subset.refl _))

theorem effects_embedBatches_cons {json : HeaderJson} {io : Io}
    {todo : List Doc} {total : Nat} (batch : List Doc)
    {batches : List (List Doc)}
    (hrest : ∀ n k sinceSave m, Effects json io todo m
      (embedBatches json io total n k sinceSave batches m).2)
    (n k sinceSave : Nat) (m : MediaIndex) :
    Effects json io todo (embedBatch io total n batch m).2
      (embedBatches json io total n k sinceSave (batch :: batches) m).2 := by
  rw [embedBatches]
  refine andThen_snd .refl fun _ => ?_
  split
  · have hsave : Effects json io todo (embedBatch io total n batch m).2
        (save json (io.saveFault k) (embedBatch io total n batch m).2).2 :=
      .single (.save _ _)
    exact andThen_snd hsave fun _ => hsave.trans (hrest _ _ _ _)
  · exact hrest _ _ _ _

theorem effects_embedBatches (json : HeaderJson) (io : Io) {todo : List Doc}
    (total : Nat) {batches : List (List Doc)}
    (hbatches : ∀ batch ∈ batches, ∀ d ∈ batch, d ∈ todo)
    (n k sinceSave : Nat) (m : MediaIndex) :
    Effects json io todo m
      (embedBatches json io total n k sinceSave batches m).2 := by
  induction batches generalizing n k sinceSave m with
  | nil => exact .single (.save m _)
  | cons batch batches ih =>
      have hfirst : Effects json io todo m (embedBatch io total n batch m).2 :=
        effects_embedBatch (hbatches batch List.mem_cons_self) total n m
      have hrest := effects_embedBatches_cons batch
        (ih fun b hb => hbatches b (List.mem_cons_of_mem _ hb)) n k sinceSave m
      exact hfirst.trans hrest

theorem effects_embedAndStore (json : HeaderJson) (io : Io) (todo : List Doc)
    (m : MediaIndex) :
    Effects json io todo m (embedAndStore json io todo m).2 := by
  rw [embedAndStore]
  split
  · exact .refl
  · split
    · exact .refl
    · apply effects_embedBatches
      intro batch hbatch d hd
      exact mem_of_mem_chunks hbatch hd

/-- What holds after the removal and is kept by every effect holds in the end. -/
theorem storeChanges_induct (json : HeaderJson) (io : Io) (ids : List String)
    (docs : List Doc) {m : MediaIndex} {p : MediaIndex → Prop}
    (hremove : p { m with index := (m.index.remove ids).2 })
    (heffect : ∀ a b, Effect json io (todo m.index ids docs) a b → p a → p b) :
    p (storeChanges json io ids docs m).2 := by
  have hrun : ∀ a b, Effects json io (todo m.index ids docs) a b →
      p a → p b := by
    intro a b h ha
    induction h with
    | refl => exact ha
    | tail _ hstep ih => exact heffect _ _ hstep ih
  have hstored := hrun _ _ (effects_embedAndStore json io _ _) hremove
  refine andThen_snd hstored fun _ => ?_
  split
  · exact heffect _ _ (.save _ _) hstored
  · exact hstored

/-- A successful `full_sync` or a failed one changes the index just as its
removals and embeddings do. -/
theorem fullSync_induct {json : HeaderJson} {io : Io}
    {works episodes : List JellyfinItems.Answer} {m : MediaIndex}
    {p : MediaIndex → Prop} (hm : p m)
    (hstore : ∀ items, fetchItems m.cfg works episodes = .ok items →
      p (storeChanges json io
        (goneIds m.index (items.filterMap document)) (items.filterMap document)
        m).2)
    (hready : ∀ a, p a → p { a with lastFullSync := some io.now, state := .ready }) :
    p (fullSync json io works episodes m).2 := by
  rw [fullSync]
  cases hitems : fetchItems m.cfg works episodes with
  | error err => exact hm
  | ok items =>
      have hstored := hstore items hitems
      exact andThen_snd hstored fun _ => hready _ hstored

theorem apply_induct {json : HeaderJson} {io : Io}
    {answers : List JellyfinItems.Answer} {changes : Changes} {m : MediaIndex}
    {p : MediaIndex → Prop} (hm : p m)
    (hstore : ∀ docs, fetchChanged (changeTypes m.cfg) changeFields answers
        (chunks 100 changes.changed) = .ok docs →
      p (storeChanges json io changes.removed docs m).2) :
    p (apply json io answers changes m).2 := by
  rw [apply]
  cases hdocs : fetchChanged (changeTypes m.cfg) changeFields answers
      (chunks 100 changes.changed) with
  | error err => exact hm
  | ok docs => exact hstore docs hdocs

end AssistantHub.MediaEffects
