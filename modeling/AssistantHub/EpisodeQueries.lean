import AssistantHub.TitleText

namespace AssistantHub.EpisodeQueries

open RustText Runs TitleText UnicodeText

/-- The number that a row of decimal digits stands for. -/
def decimal (digits : List Char) : Nat :=
  digits.foldl (fun n c => n * 10 + (c.toNat - 48)) 0

/-- `parse::<u32>()`: digits, with a plus sign before them or not. -/
def parseU32 (s : String) : Option Nat :=
  let digits := if s.toList.head? = some '+' then s.toList.tail else s.toList
  if digits.isEmpty || !digits.all Char.isDigit then none
  else if decimal digits < 4294967296 then some (decimal digits)
  else none

def numberAfter (lower : List String) (key : String) : Option (Nat × Nat) :=
  (lower.findIdx? fun w => w = key).bind fun i =>
    (lower[i + 1]?.bind parseU32).map fun n => (i, n)

/-- "Spy x Family season 2 episode 3" becomes ("Spy x Family", Some(2),
Some(3)). -/
def splitEpisode (u : Unicode) (query : String) :
    String × Option Nat × Option Nat :=
  let parts := splitWhitespace query
  let lower := words u query
  if lower.length ≠ parts.length then (trim query, none, none)
  else
    let season := numberAfter lower "season"
    let episode := numberAfter lower "episode"
    let cut := ([season.map Prod.fst, episode.map Prod.fst].filterMap
      id).min?.getD parts.length
    (" ".intercalate (parts.take cut), season.map Prod.snd,
      episode.map Prod.snd)

example : splitEpisode .asciiHan "Spy x Family season 2 episode 3" =
    ("Spy x Family", some 2, some 3) := by decide

example : splitEpisode .asciiHan "frieren episode five" =
    ("frieren", none, some 5) := by decide

/-- A row of digits for a `u32`, with zeros in front or not. -/
def WrittenAs (n : Nat) (s : String) : Prop :=
  s.toList ≠ [] ∧ (∀ c ∈ s.toList, c.isDigit = true) ∧
    decimal s.toList = n ∧ n < 4294967296

/-- The parts of a title between whitespace: one or more, each with a letter or
digit, and no word that names a season or an episode. -/
structure Title (u : Unicode) (title : String) : Prop where
  parts : splitWhitespace title ≠ []
  letters : ∀ w ∈ splitWhitespace title,
    ∃ c ∈ w.toList, u.isAlphanumeric c = true
  no_season : "season" ∉ words u title
  no_episode : "episode" ∉ words u title

theorem parseU32_of_writtenAs {n : Nat} {s : String} (h : WrittenAs n s) :
    parseU32 s = some n := by
  obtain ⟨hne, hdigits, rfl, hbound⟩ := h
  have hplus : s.toList.head? ≠ some '+' := by
    intro hhead
    have hdigit := hdigits '+' (List.mem_of_mem_head? hhead)
    exact absurd hdigit (by decide)
  rw [parseU32, if_neg hplus]
  have hall : s.toList.all Char.isDigit = true := List.all_eq_true.mpr hdigits
  rw [hall, List.isEmpty_eq_false_iff.mpr hne]
  exact if_pos hbound

theorem wordsFrom_eq (word l : List Char) :
    wordsFrom word l =
      (l.splitOnPPrepend isWhitespace word.reverse).filter fun run =>
        !run.isEmpty := by
  induction l generalizing word with
  | nil =>
      rw [List.splitOnPPrepend_nil, List.reverse_reverse, wordsFrom]
      rcases word with _ | ⟨d, word⟩
      · rfl
      · rfl
  | cons c l ih =>
      rw [wordsFrom, List.splitOnPPrepend_cons_eq_if, List.reverse_reverse]
      rcases hc : isWhitespace c with _ | _
      · rw [if_neg Bool.false_ne_true, if_neg Bool.false_ne_true, ih,
          List.reverse_append]
        rfl
      · rw [if_pos rfl, if_pos rfl, ih]
        rcases word with _ | ⟨d, word⟩
        · rfl
        · rfl

theorem splitWhitespace_eq (s : List Char) :
    splitWhitespace (String.ofList s) =
      (runs isWhitespace s).map String.ofList := by
  rw [splitWhitespace, wordsFrom_eq, String.toList_ofList]
  rfl

theorem splitWhitespace_append {c : Char} (hc : isWhitespace c = true)
    (s t : List Char) :
    splitWhitespace (String.ofList (s ++ c :: t)) =
      splitWhitespace (String.ofList s) ++
        splitWhitespace (String.ofList t) := by
  simp only [splitWhitespace_eq]
  rw [runs_append_cons hc, List.map_append]

/-- The words of a text are the words of its parts between whitespace. -/
theorem words_eq_flatMap (u : Unicode) (s : String) :
    words u s = (splitWhitespace s).flatMap (words u) := by
  have hruns := eq_flatMap_runs (fun l => words u (String.ofList l)) words_nil
    (fun l c m hc => words_append hc l m) s.toList
  rw [String.ofList_toList] at hruns
  rw [hruns, ← String.ofList_toList (s := s), splitWhitespace_eq,
    String.toList_ofList, List.flatMap_map]

/-- A word that both ways of splitting leave as it is. -/
structure Plain (u : Unicode) (w : String) : Prop where
  words_eq : words u w = [w]
  splitWhitespace_eq : splitWhitespace w = [w]

theorem plain_of_ascii {u : Unicode} {w : String} (hne : w.toList ≠ [])
    (hletters : ∀ c ∈ w.toList, c.isAlphanum = true ∧ c.toLower = c)
    (hspoken : spoken w = w) : Plain u w := by
  constructor
  · exact words_of_ascii hne hletters hspoken
  · rw [← String.ofList_toList (s := w), splitWhitespace_eq, runs_eq_singleton]
    · rfl
    · exact hne
    · intro c hc
      by_contra hspace
      have hnone := not_alphanum_of_whitespace (Bool.not_eq_false _ ▸ hspace)
      rw [(hletters c hc).1] at hnone
      exact absurd hnone.symm Bool.false_ne_true

theorem plain_season (u : Unicode) : Plain u "season" :=
  plain_of_ascii (by decide) (by decide) (by decide)

theorem plain_episode (u : Unicode) : Plain u "episode" :=
  plain_of_ascii (by decide) (by decide) (by decide)

theorem names_of_numberWords :
    ∀ p ∈ numberWords, p.1.toList.all Char.isDigit = false := by decide

theorem plain_of_writtenAs {u : Unicode} {n : Nat} {s : String}
    (h : WrittenAs n s) : Plain u s := by
  refine plain_of_ascii h.1 ?_ ?_
  · intro c hc
    have hdigit := h.2.1 c hc
    refine ⟨?_, ?_⟩
    · rw [Char.isAlphanum, hdigit, Bool.or_true]
    · have hbound : 48 ≤ c.toNat ∧ c.toNat ≤ 57 := by
        rw [Char.isDigit, Bool.and_eq_true, decide_eq_true_iff,
          decide_eq_true_iff] at hdigit
        exact hdigit
      rw [← Char.toNat_inj, toNat_toLower, if_neg]
      omega
  · refine spoken_eq_self fun p hp heq => ?_
    have hletter := names_of_numberWords p hp
    rw [heq, List.all_eq_true.mpr h.2.1] at hletter
    exact Bool.false_ne_true hletter.symm

/-- Further words behind a text, each after a space. -/
def spaced (ws : List String) : List Char :=
  ws.flatMap fun w => ' ' :: w.toList

theorem splits_spaced {u : Unicode} (s : List Char) {ws : List String}
    (h : ∀ w ∈ ws, Plain u w) :
    words u (String.ofList (s ++ spaced ws)) =
        words u (String.ofList s) ++ ws ∧
      splitWhitespace (String.ofList (s ++ spaced ws)) =
        splitWhitespace (String.ofList s) ++ ws := by
  have hspace : isWhitespace ' ' = true := by decide
  induction ws generalizing s with
  | nil => simp [spaced]
  | cons w ws ih =>
      rw [List.forall_mem_cons] at h
      have hsplit : s ++ spaced (w :: ws) =
          s ++ ' ' :: (w.toList ++ spaced ws) := rfl
      obtain ⟨hwords, hparts⟩ := ih w.toList h.2
      rw [hsplit, words_append hspace, splitWhitespace_append hspace, hwords,
        hparts, String.ofList_toList, h.1.words_eq, h.1.splitWhitespace_eq]
      exact ⟨rfl, rfl⟩

theorem length_flatMap_eq_iff {α β : Type*} {f : α → List β} {l : List α}
    (hne : ∀ x ∈ l, f x ≠ []) :
    (l.flatMap f).length = l.length ↔ ∀ x ∈ l, (f x).length = 1 := by
  have hle : ∀ m : List α, (∀ x ∈ m, f x ≠ []) →
      m.length ≤ (m.flatMap f).length := by
    intro m hm
    induction m with
    | nil => exact Nat.zero_le _
    | cons x m ih =>
        rw [List.forall_mem_cons] at hm
        have hpos := List.length_pos_iff.mpr hm.1
        have hrest := ih hm.2
        rw [List.flatMap_cons, List.length_append, List.length_cons]
        omega
  induction l with
  | nil => exact iff_of_true rfl nofun
  | cons x l ih =>
      rw [List.forall_mem_cons] at hne
      have hpos := List.length_pos_iff.mpr hne.1
      have hrest := hle l hne.2
      have htail := ih hne.2
      rw [List.flatMap_cons, List.length_append, List.length_cons,
        List.forall_mem_cons]
      constructor
      · intro hlength
        exact ⟨by omega, htail.mp (by omega)⟩
      · rintro ⟨hone, hall⟩
        have hlength := htail.mpr hall
        omega

section Titles

variable {u : Unicode} {title : String}

theorem Title.words_ne_nil (h : Title u title) :
    ∀ w ∈ splitWhitespace title, words u w ≠ [] := by
  intro w hw
  obtain ⟨c, hc, halnum⟩ := h.letters w hw
  obtain ⟨d, hd, halnum⟩ :=
    Unicode.exists_alphanumeric_toLowercaseFrom hc halnum []
  rw [words, Ne, List.map_eq_nil_iff]
  refine runs_ne_nil hd ?_
  rw [halnum]
  rfl

/-- Both ways of splitting agree on a title when each of its parts is one
word. -/
theorem Title.length_words_iff (h : Title u title) :
    (words u title).length = (splitWhitespace title).length ↔
      ∀ w ∈ splitWhitespace title, (words u w).length = 1 := by
  rw [words_eq_flatMap]
  exact length_flatMap_eq_iff h.words_ne_nil

theorem numberAfter_append {front : List String} {key : String}
    (hkey : key ∉ front) (rest : List String) :
    numberAfter (front ++ rest) key =
      (numberAfter rest key).map fun p => (p.1 + front.length, p.2) := by
  have hnone : front.findIdx? (fun w => w = key) = none := by
    rw [List.findIdx?_eq_none_iff]
    intro w hw
    exact decide_eq_false fun heq => hkey (heq ▸ hw)
  rw [numberAfter, numberAfter, List.findIdx?_append, hnone, Option.none_or,
    Option.bind_map, Option.map_bind]
  refine congrArg _ (funext fun i => ?_)
  show ((front ++ rest)[i + front.length + 1]?.bind parseU32).map _ =
    ((rest[i + 1]?.bind parseU32).map _).map _
  rw [List.getElem?_append_right (by omega), Option.map_map]
  have hindex : i + front.length + 1 - front.length = i + 1 := by omega
  rw [hindex]
  rfl

/-- What is split off behind a title whose parts are words. -/
theorem splitEpisode_spaced (h : Title u title) {ws : List String}
    (hws : ∀ w ∈ ws, Plain u w) {season episode : Option (Nat × Nat)}
    (hseason : numberAfter ws "season" = season)
    (hepisode : numberAfter ws "episode" = episode)
    (hcut : ∀ n, ([season.map fun p => p.1 + n,
      episode.map fun p => p.1 + n].filterMap id).min? = some n) :
    splitEpisode u (String.ofList (title.toList ++ spaced ws)) =
      if (words u title).length = (splitWhitespace title).length then
        (" ".intercalate (splitWhitespace title), season.map Prod.snd,
          episode.map Prod.snd)
      else (trim (String.ofList (title.toList ++ spaced ws)), none, none) := by
  obtain ⟨hwords, hparts⟩ := splits_spaced title.toList hws
  rw [String.ofList_toList] at hwords hparts
  rw [splitEpisode, hwords, hparts, List.length_append, List.length_append,
    numberAfter_append h.no_season, numberAfter_append h.no_episode, hseason,
    hepisode]
  split
  · rename_i hne
    rw [if_neg (by omega)]
  · rename_i heq
    rw [if_pos (by omega)]
    have hfst : (Prod.fst ∘ fun p : Nat × Nat =>
        (p.1 + (words u title).length, p.2)) =
      fun p => p.1 + (words u title).length := rfl
    have hlength : (splitWhitespace title).length = (words u title).length := by
      omega
    simp only [Option.map_map]
    rw [hfst, hcut, Option.getD_some, List.take_left' hlength]
    rfl

theorem WrittenAs.ne {n : Nat} {s w : String} (h : WrittenAs n s)
    (hw : w.toList.all Char.isDigit = false) : s ≠ w := by
  rintro rfl
  rw [List.all_eq_true.mpr h.2.1] at hw
  exact Bool.false_ne_true hw.symm

theorem splitEpisode_spaced_iff (h : Title u title) (ws : List String)
    (hws : ∀ w ∈ ws, Plain u w) (season episode : Option (Nat × Nat))
    (hseason : numberAfter ws "season" = season)
    (hepisode : numberAfter ws "episode" = episode)
    (hcut : ∀ n, ([season.map fun p => p.1 + n,
      episode.map fun p => p.1 + n].filterMap id).min? = some n) :
    splitEpisode u (String.ofList (title.toList ++ spaced ws)) =
        (" ".intercalate (splitWhitespace title), season.map Prod.snd,
          episode.map Prod.snd) ↔
      ∀ w ∈ splitWhitespace title, (words u w).length = 1 := by
  rw [splitEpisode_spaced h hws hseason hepisode hcut, ← h.length_words_iff]
  split
  · rename_i heq
    exact iff_of_true rfl heq
  · rename_i hne
    refine iff_of_false ?_ hne
    intro heq
    rw [Prod.mk.injEq, Prod.mk.injEq] at heq
    have hcut := hcut 0
    rw [Option.map_eq_none_iff.mp heq.2.1.symm,
      Option.map_eq_none_iff.mp heq.2.2.symm] at hcut
    cases hcut

section Forms

variable (h : Title u title) {s e : Nat} {ds de : String}

include h

theorem splitEpisode_season_episode_iff (hs : WrittenAs s ds)
    (he : WrittenAs e de) :
    splitEpisode u (title ++ " season " ++ ds ++ " episode " ++ de) =
        (" ".intercalate (splitWhitespace title), some s, some e) ↔
      ∀ w ∈ splitWhitespace title, (words u w).length = 1 := by
  have hquery : title ++ " season " ++ ds ++ " episode " ++ de =
      String.ofList (title.toList ++ spaced ["season", ds, "episode", de]) := by
    rw [← String.toList_inj]
    simp [spaced]
  have hne : ds ≠ "episode" := hs.ne (by decide)
  rw [hquery]
  refine splitEpisode_spaced_iff h _ ?_ (some (0, s)) (some (2, e)) ?_ ?_ ?_
  · simp [plain_season, plain_episode, plain_of_writtenAs hs,
      plain_of_writtenAs he]
  · simp [numberAfter, List.findIdx?_cons, parseU32_of_writtenAs hs]
  · simp [numberAfter, List.findIdx?_cons, parseU32_of_writtenAs he, hne]
  · intro n
    simp

theorem splitEpisode_season_iff (hs : WrittenAs s ds) :
    splitEpisode u (title ++ " season " ++ ds) =
        (" ".intercalate (splitWhitespace title), some s, none) ↔
      ∀ w ∈ splitWhitespace title, (words u w).length = 1 := by
  have hquery : title ++ " season " ++ ds =
      String.ofList (title.toList ++ spaced ["season", ds]) := by
    rw [← String.toList_inj]
    simp [spaced]
  have hne : ds ≠ "episode" := hs.ne (by decide)
  rw [hquery]
  refine splitEpisode_spaced_iff h _ ?_ (some (0, s)) none ?_ ?_ ?_
  · simp [plain_season, plain_of_writtenAs hs]
  · simp [numberAfter, List.findIdx?_cons, parseU32_of_writtenAs hs]
  · simp [numberAfter, List.findIdx?_cons, hne]
  · intro n
    simp

theorem splitEpisode_episode_iff (he : WrittenAs e de) :
    splitEpisode u (title ++ " episode " ++ de) =
        (" ".intercalate (splitWhitespace title), none, some e) ↔
      ∀ w ∈ splitWhitespace title, (words u w).length = 1 := by
  have hquery : title ++ " episode " ++ de =
      String.ofList (title.toList ++ spaced ["episode", de]) := by
    rw [← String.toList_inj]
    simp [spaced]
  have hne : de ≠ "season" := he.ne (by decide)
  rw [hquery]
  refine splitEpisode_spaced_iff h _ ?_ none (some (0, e)) ?_ ?_ ?_
  · simp [plain_episode, plain_of_writtenAs he]
  · simp [numberAfter, List.findIdx?_cons, hne]
  · simp [numberAfter, List.findIdx?_cons, parseU32_of_writtenAs he]
  · intro n
    simp

end Forms

/-- A season, an episode or both behind a title are split off if and only if
each part of the title is one word. -/
theorem splitEpisode_title_iff (h : Title u title) {s e : Nat}
    {ds de : String} (hs : WrittenAs s ds) (he : WrittenAs e de) :
    (splitEpisode u (title ++ " season " ++ ds ++ " episode " ++ de) =
        (" ".intercalate (splitWhitespace title), some s, some e) ↔
      ∀ w ∈ splitWhitespace title, (words u w).length = 1) ∧
    (splitEpisode u (title ++ " season " ++ ds) =
        (" ".intercalate (splitWhitespace title), some s, none) ↔
      ∀ w ∈ splitWhitespace title, (words u w).length = 1) ∧
    (splitEpisode u (title ++ " episode " ++ de) =
        (" ".intercalate (splitWhitespace title), none, some e) ↔
      ∀ w ∈ splitWhitespace title, (words u w).length = 1) := by
  refine ⟨?_, ?_, ?_⟩
  · exact splitEpisode_season_episode_iff h hs he
  · exact splitEpisode_season_iff h hs
  · exact splitEpisode_episode_iff h he

end Titles

theorem splitEpisode_title_iff_spy :
    splitEpisode .asciiHan
        ("Spy x Family" ++ " season " ++ "2" ++ " episode " ++ "3") =
      (" ".intercalate (splitWhitespace "Spy x Family"), some 2, some 3) :=
  (splitEpisode_title_iff ⟨by decide, by decide, by decide, by decide⟩
    ⟨by decide, by decide, by decide, by decide⟩
    ⟨by decide, by decide, by decide, by decide⟩).1.mpr (by decide)

/-- The part "Journey's" is two words, so nothing is split off. -/
theorem splitEpisode_frieren :
    Title .asciiHan "Frieren: Beyond Journey's End" ∧
      WrittenAs 1 "1" ∧ WrittenAs 2 "2" ∧
      splitEpisode .asciiHan
          ("Frieren: Beyond Journey's End" ++ " season " ++ "1" ++
            " episode " ++ "2") ≠
        (" ".intercalate (splitWhitespace "Frieren: Beyond Journey's End"),
          some 1, some 2) :=
  ⟨⟨by decide, by decide, by decide, by decide⟩,
    ⟨by decide, by decide, by decide, by decide⟩,
    ⟨by decide, by decide, by decide, by decide⟩, by decide⟩

end AssistantHub.EpisodeQueries
