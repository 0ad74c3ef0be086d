import AssistantHub.SemanticGate
import AssistantHub.SoundMatches
import AssistantHub.TitleChecks

namespace AssistantHub.JellyfinFind

open IndexRank IndexStore SemanticGate SoundMatches TitleChecks TitleScores TitleText
open TopSelection UnicodeText

/-- The place of a score: lower is better. -/
def place : Score → Nat
  | .exact => 0
  | .main => 1
  | .words => 2

/-- A first key and then the order of the items. -/
instance linearOrderScoredKey {K : Type} [LinearOrder K] :
    LinearOrder (K ×ₗ (Bool ×ₗ Bool ×ₗ Int)) :=
  @Prod.Lex.instLinearOrder K (Bool ×ₗ Bool ×ₗ Int) inferInstance linearOrderKey

instance preorderScoredKey {K : Type} [LinearOrder K] :
    Preorder (K ×ₗ (Bool ×ₗ Bool ×ₗ Int)) :=
  linearOrderScoredKey.toPreorder

def bestKey (p : Score × Item) : Nat ×ₗ (Bool ×ₗ Bool ×ₗ Int) :=
  toLex (place p.1, matchKey p.2)

/-- The best series or movie for the query. Series win over movies at the same
score. Of several movies, the oldest unwatched one wins. -/
def bestMatch (u : Unicode) (query : String) (library : List Item) : Option Item :=
  let scored := library.filterMap fun item =>
    (score u query item.name).map fun s => (s, item)
  (scored.argmin bestKey).map Prod.snd

/-- Trigram similarity from which a title counts as a typo of the query. -/
def fuzzyMin : ℚ := 1 / 2

/-- The most similar title first, then the order of the items. -/
def fuzzyKey (p : Item × ℚ) : ℚ ×ₗ (Bool ×ₗ Bool ×ₗ Int) :=
  toLex (-p.2, matchKey p.1)

/-- The series or movie whose title (or its main part) is most similar to the
query, if the similarity is high enough. -/
def fuzzyMatch (u : Unicode) (query : String) (library : List Item) :
    Option (Item × ℚ) :=
  let q := trigrams u query
  let similar := library.map fun item =>
    (item, max (trigramSimilarity q (trigrams u item.name))
      (trigramSimilarity q (trigrams u (mainTitle item.name))))
  (similar.filter fun p => decide (fuzzyMin ≤ p.2)).argmin fuzzyKey

/-- Which stage of the search found the item. -/
inductive Match where
  | title
  | fuzzy
  | sound
  | semantic
  | jellyfin
  deriving DecidableEq

/-- What comes back for a request: nothing, another status than success, or a
success whose body may not be of the wanted form. -/
inductive Reply (T : Type) where
  | unsent (err : Error)
  | status (status : String)
  | success (body : Option T)

def get {T : Type} (path : String) : Reply T → Except Error T
  | .unsent err => .error err
  | .status status => .error s!"Jellyfin {path}: HTTP {status}"
  | .success none => .error s!"Jellyfin {path}: bad JSON"
  | .success (some body) => .ok body

/-- The media index as a search sees it: the embedder of queries once it is
loaded, the index and the gate. -/
structure MediaIndex (F : Type) where
  query : Option (List String → Except Error (List (List F)))
  index : Index F
  gate : Gate F

/-- `item` is the reply to a request for one item and `search` the one to
Jellyfin's own search for a series or a movie. -/
structure Jellyfin (F : Type) where
  media : Option (MediaIndex F)
  itemReply : (userId id : String) → Reply Item
  searchReply : (userId words : String) → Reply (List Item)

/-- The prompt for a search. -/
def queryText (query : String) : String :=
  s!"task: search result | query: {query}"

/-- The query can be answered: the model is loaded and the index has entries. -/
def MediaIndex.ready {F : Type} (m : MediaIndex F) : Bool :=
  m.query.isSome && !m.index.entries.isEmpty

section Search

variable {F : Type} [Field F] [LinearOrder F]
variable (u : Unicode) (episodeIntent : String → Bool) (sel : Selection (byScore F))

def MediaIndex.rank (m : MediaIndex F) (query : String) (limit : Nat)
    (keep : Entry → Bool) : Except Error (List (Hit F)) :=
  match m.query with
  | none => .error "media index not loaded"
  | some embed =>
      match embed [queryText query] with
      | .error err => .error err
      | .ok vectors =>
          match vectors.getLast? with
          | none => .error "no vector"
          | some vector => .ok (Index.rank sel m.index vector limit keep)

def MediaIndex.semantic (m : MediaIndex F) (query : String) :
    Except Error (Option (Semantic F)) :=
  let episodes := episodeIntent query
  (m.rank sel query rankForGate (takesPart episodes)).map fun hits =>
    SemanticGate.gate hits m.index episodes m.gate

structure Found (F : Type) where
  item : Item
  matched : Match
  score : F

def Jellyfin.item (j : Jellyfin F) (userId id : String) : Except Error Item :=
  get s!"/Items/{id}" (j.itemReply userId id)

def Jellyfin.search (j : Jellyfin F) (userId words : String) :
    Except Error (List Item) :=
  get "/Items" (j.searchReply userId words)

/-- The stage of the media index. A failed embedding is only logged. -/
def Jellyfin.semanticStage (j : Jellyfin F) (userId words : String)
    (library : List Item) : Except Error (Option (Found F)) :=
  match j.media.filter MediaIndex.ready with
  | none => .ok none
  | some media =>
      match media.semantic episodeIntent sel words with
      | .error _ => .ok none
      | .ok none => .ok none
      | .ok (some s) =>
          if s.accepted && semanticTitleOk u words s.name then
            match library.find? fun i => decide (i.id = s.id) with
            | some item => .ok (some ⟨item, .semantic, s.score⟩)
            | none => (j.item userId s.id).map fun item =>
                some ⟨item, .semantic, s.score⟩
          else .ok none

/-- Items added after the title list was cached. Only a close title counts. -/
def Jellyfin.searchStage (j : Jellyfin F) (userId words : String) :
    Except Error (Option (Found F)) :=
  (j.search userId words).map fun items =>
    items.head?.bind fun item =>
      let sim := max (similarity u words (mainTitle item.name))
        (similarity u words item.name)
      if fuzzyMin ≤ sim then some ⟨item, .jellyfin, (sim : F)⟩ else none

/-- The best series, movie or episode for the spoken words: title, then trigram
similarity, then the media index, then Jellyfin's own search. -/
def Jellyfin.find (j : Jellyfin F) (userId words : String) (library : List Item) :
    Except Error (Option (Found F)) :=
  match bestMatch u words library with
  | some item => .ok (some ⟨item, .title, 1⟩)
  | none =>
      match fuzzyMatch u words library with
      | some (item, sim) => .ok (some ⟨item, .fuzzy, (sim : F)⟩)
      | none =>
          match soundMatch u words library with
          | some item => .ok (some ⟨item, .sound, 1 / 2⟩)
          | none =>
              match j.semanticStage u episodeIntent sel userId words library with
              | .error err => .error err
              | .ok (some found) => .ok (some found)
              | .ok none => j.searchStage u userId words

end Search

section Optional

variable {F : Type} [Field F] [LinearOrder F]
variable (u : Unicode) (episodeIntent : String → Bool) (sel : Selection (byScore F))
variable (j : Jellyfin F) (userId words : String) (library : List Item)

def Jellyfin.withoutMedia : Jellyfin F := { j with media := none }

/-- No title of the library list answers. -/
structure Unanswered (u : Unicode) (words : String) (library : List Item) : Prop where
  title : bestMatch u words library = none
  fuzzy : fuzzyMatch u words library = none
  sound : soundMatch u words library = none

/-- The media index is ready, but it gets no vector for the query. -/
def EmbedderFails : Prop :=
  ∃ m, j.media = some m ∧ m.ready = true ∧
    ∃ err, m.semantic episodeIntent sel words = .error err

/-- The winner of the media index counts, but it is neither in the library list
nor does Jellyfin return it. -/
def WinnerGone : Prop :=
  ∃ m s, j.media = some m ∧ m.ready = true ∧
    m.semantic episodeIntent sel words = .ok (some s) ∧
    s.accepted = true ∧ semanticTitleOk u words s.name = true ∧
    (∀ item ∈ library, item.id ≠ s.id) ∧ ∃ err, j.item userId s.id = .error err

/-- A failure of the semantic stage costs no answer. -/
def KeepsAnswers : Prop :=
  Unanswered u words library →
    (∃ items, j.search userId words = .ok items) →
      EmbedderFails episodeIntent sel j words ∨
          WinnerGone u episodeIntent sel j userId words library →
        ∃ found,
          j.withoutMedia.find u episodeIntent sel userId words library = .ok found ∧
            j.find u episodeIntent sel userId words library = .ok found

variable {u episodeIntent sel j userId words library}

@[simp] theorem semanticStage_withoutMedia :
    j.withoutMedia.semanticStage u episodeIntent sel userId words library =
      .ok none := rfl

omit [LinearOrder F] in
@[simp] theorem searchStage_withoutMedia :
    j.withoutMedia.searchStage u userId words = j.searchStage u userId words := rfl

theorem semanticStage_of_embedderFails (h : EmbedderFails episodeIntent sel j words) :
    j.semanticStage u episodeIntent sel userId words library = .ok none := by
  obtain ⟨m, hmedia, hready, err, herr⟩ := h
  simp only [Jellyfin.semanticStage, hmedia, Option.filter_some_pos hready, herr]

theorem semanticStage_of_winnerGone
    (h : WinnerGone u episodeIntent sel j userId words library) :
    ∃ err, j.semanticStage u episodeIntent sel userId words library = .error err := by
  obtain ⟨m, s, hmedia, hready, hsome, haccepted, htitle, hgone, err, herr⟩ := h
  have hfind : library.find? (fun i => decide (i.id = s.id)) = none := by
    rw [List.find?_eq_none]
    intro item hitem hid
    exact hgone item hitem (of_decide_eq_true hid)
  refine ⟨err, ?_⟩
  simp only [Jellyfin.semanticStage, hmedia, Option.filter_some_pos hready, hsome,
    haccepted, htitle, hfind, herr, Bool.and_self, if_true, Except.map]

theorem find_of_unanswered (h : Unanswered u words library) :
    j.find u episodeIntent sel userId words library =
      match j.semanticStage u episodeIntent sel userId words library with
      | .error err => .error err
      | .ok (some found) => .ok (some found)
      | .ok none => j.searchStage u userId words := by
  rw [Jellyfin.find, h.title, h.fuzzy, h.sound]

theorem find_withoutMedia (h : Unanswered u words library) :
    j.withoutMedia.find u episodeIntent sel userId words library =
      j.searchStage u userId words := by
  rw [find_of_unanswered h, semanticStage_withoutMedia, searchStage_withoutMedia]

/-- Without an answer of the embedder, a search goes on as if there were no media
index, whatever the other stages find. -/
theorem find_of_embedderFails (h : EmbedderFails episodeIntent sel j words) :
    j.find u episodeIntent sel userId words library =
      j.withoutMedia.find u episodeIntent sel userId words library := by
  rw [Jellyfin.find, Jellyfin.find, semanticStage_of_embedderFails h,
    semanticStage_withoutMedia, searchStage_withoutMedia]

omit [LinearOrder F] in
theorem exists_searchStage (h : ∃ items, j.search userId words = .ok items) :
    ∃ found, j.searchStage u userId words = .ok found := by
  obtain ⟨items, hitems⟩ := h
  rw [Jellyfin.searchStage, hitems]
  exact ⟨_, rfl⟩

theorem KeepsAnswers.not_winnerGone
    (h : KeepsAnswers u episodeIntent sel j userId words library)
    (hnone : Unanswered u words library)
    (hsearch : ∃ items, j.search userId words = .ok items) :
    ¬WinnerGone u episodeIntent sel j userId words library := by
  intro hgone
  obtain ⟨found, -, hfound⟩ := h hnone hsearch (Or.inr hgone)
  obtain ⟨err, herr⟩ := semanticStage_of_winnerGone hgone
  rw [find_of_unanswered hnone, herr] at hfound
  exact absurd hfound nofun

end Optional

/-- The stage keeps all answers unless the index is ahead of Jellyfin: the item
that wins is gone, and nothing else is asked any more. -/
theorem keepsAnswers_iff {F : Type} [Field F] [LinearOrder F] (u : Unicode)
    (episodeIntent : String → Bool) (sel : Selection (byScore F)) (j : Jellyfin F)
    (userId words : String) (library : List Item) :
    KeepsAnswers u episodeIntent sel j userId words library ↔
      ¬(Unanswered u words library ∧
        (∃ items, j.search userId words = .ok items) ∧
        WinnerGone u episodeIntent sel j userId words library) := by
  constructor
  · rintro hkeeps ⟨hnone, hsearch, hgone⟩
    exact hkeeps.not_winnerGone hnone hsearch hgone
  · intro hpresent hnone hsearch hfails
    rcases hfails with hembed | hgone
    · obtain ⟨found, hfound⟩ := exists_searchStage hsearch
      refine ⟨found, (find_withoutMedia hnone).trans hfound, ?_⟩
      rw [find_of_embedderFails hembed, find_withoutMedia hnone, hfound]
    · exact absurd ⟨hnone, hsearch, hgone⟩ hpresent

/-- The index still has a film that is no longer in Jellyfin. -/
def duneIndex : Index ℚ :=
  ((Index.new 1).upsert ⟨"m1", .movie, "Dune", none, none, 1⟩ [1]).2

def staleIndex : Jellyfin ℚ where
  media := some
    { query := some fun _ => .ok [[1]]
      index := duneIndex
      gate := ⟨31 / 50, 1 / 20⟩ }
  itemReply _ _ := .status "404 Not Found"
  searchReply _ _ := .success (some [])

def office : List Item := [⟨"s9", "The Office", "Series", some 2005, false⟩]

theorem semantic_duneIndex :
    ∃ s, SemanticGate.semantic (sorting (byScore ℚ)) duneIndex [1] false
        ⟨31 / 50, 1 / 20⟩ = some s ∧ s.id = "m1" ∧ s.accepted = true := by
  have hwell : duneIndex.WellFormed :=
    wellFormed_upsert (wellFormed_new 1) ⟨"m1", .movie, "Dune", none, none, 1⟩ [1]
  have hlength : [(1 : ℚ)].length = duneIndex.dims := rfl
  have hscores : scores duneIndex [1] false = [1] := by
    have hrows : (duneIndex.rows.filter fun r => takesPart false r.1).map
        (fun r => dot r.2 [(1 : ℚ)]) = [1] := by decide +kernel
    rw [scores, hrows, descending, List.mergeSort_singleton]
  obtain ⟨hempty, hfound⟩ := semantic_uses_ranking (sorting (byScore ℚ)) hwell
    (by decide) hlength false ⟨31 / 50, 1 / 20⟩
  rcases hs : SemanticGate.semantic (sorting (byScore ℚ)) duneIndex [1] false
    ⟨31 / 50, 1 / 20⟩ with _ | s
  · exact absurd (hempty.mp hs _ List.mem_cons_self) (by decide)
  · obtain ⟨hscore, ⟨r, hr, -, hid, -⟩, hmargin, haccepted⟩ := hfound s hs
    have hrow : ∀ r ∈ duneIndex.rows, r.1.id = "m1" := by decide +kernel
    have hmean : restMean [(1 : ℚ)] = 0 := rfl
    rw [hscores, List.head?_cons, Option.some.injEq] at hscore
    rw [hscores, hmean, ← hscore] at hmargin
    refine ⟨s, rfl, hid.symm.trans (hrow r hr), haccepted.mpr ⟨?_, ?_⟩⟩
    · rw [← hscore]
      norm_num
    · rw [hmargin]
      norm_num

theorem not_keepsAnswers_staleIndex :
    ¬KeepsAnswers .asciiHan (fun _ => false) (sorting (byScore ℚ)) staleIndex "u1"
      "that desert planet movie with the giant sand worms" office := by
  obtain ⟨s, hs, hid, haccepted⟩ := semantic_duneIndex
  intro hkeeps
  have hnone : Unanswered .asciiHan
      "that desert planet movie with the giant sand worms" office :=
    ⟨by decide +kernel, by decide +kernel, by decide +kernel⟩
  have hgone : WinnerGone .asciiHan (fun _ => false) (sorting (byScore ℚ)) staleIndex
      "u1" "that desert planet movie with the giant sand worms" office := by
    refine ⟨_, s, rfl, rfl, congrArg Except.ok hs, haccepted, ?_, ?_, _, rfl⟩
    · have hlike : titleLike .asciiHan
          "that desert planet movie with the giant sand worms" = false := by
        decide +kernel
      rw [semanticTitleOk, hlike]
      rfl
    · rw [hid]
      decide
  exact hkeeps.not_winnerGone hnone ⟨[], rfl⟩ hgone

end AssistantHub.JellyfinFind
