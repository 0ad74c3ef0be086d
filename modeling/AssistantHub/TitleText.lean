import AssistantHub.Rounding
import AssistantHub.Runs
import AssistantHub.UnicodeText
import Mathlib.Data.Finset.Card
import Mathlib.Data.Finset.Dedup

namespace AssistantHub.TitleText

open Rounding RustText Runs UnicodeText

/-- Spoken numbers as digits. -/
def numberWords : List (String × String) :=
  [("zero", "0"), ("one", "1"), ("two", "2"), ("three", "3"), ("four", "4"),
    ("five", "5"), ("six", "6"), ("seven", "7"), ("eight", "8"),
    ("nine", "9"), ("ten", "10")]

def spoken (w : String) : String :=
  ((numberWords.find? fun p => p.1 = w).map Prod.snd).getD w

/-- The parts of a text between characters that are no letters or digits. -/
def letterRuns (u : Unicode) (s : List Char) : List (List Char) :=
  runs (fun c => !u.isAlphanumeric c) s

/-- Lowercase words of letters and digits, with spoken numbers as digits. -/
def words (u : Unicode) (s : String) : List String :=
  (letterRuns u (u.toLowercase s.toList)).map fun w => spoken (String.ofList w)

/-- All words in one string. -/
def squashed (u : Unicode) (s : String) : String := String.join (words u s)

def windows : List Char → List (Char × Char × Char)
  | a :: b :: c :: rest => (a, b, c) :: windows (b :: c :: rest)
  | _ => []

/-- Character trigrams of the normalized words, with word borders. -/
def trigrams (u : Unicode) (s : String) : Finset (Char × Char × Char) :=
  let ws := words u s
  if ws.isEmpty then ∅
  else
    (windows ("  ".toList ++ (" ".intercalate ws).toList ++
      " ".toList)).toFinset

/-- Share of common trigrams (Jaccard index) from 0 to 1. -/
def trigramSimilarity (a b : Finset (Char × Char × Char)) : ℚ :=
  let union := (a ∪ b).card
  if union = 0 then 0 else ratioF32 (a ∩ b).card union

def similarity (u : Unicode) (a b : String) : ℚ :=
  trigramSimilarity (trigrams u a) (trigrams u b)

def isVowel (c : Char) : Bool := "aeiouy".toList.contains c

/-- The consonants behind `out`, which holds those before. -/
def skeletonFrom (out : List Char) : List Char → List Char
  | [] => out
  | c :: rest =>
      if isVowel c then skeletonFrom out rest
      else if out.getLast? = some c then skeletonFrom out rest
      else skeletonFrom (out ++ [c]) rest

/-- The consonants of the words in order, without repeats. -/
def skeleton (u : Unicode) (s : String) : String :=
  String.ofList (skeletonFrom [] (String.join (words u s)).toList)

def descriptive : List String :=
  ["about", "with", "where", "who", "which", "that", "movie", "film", "show",
    "series", "anime", "documentary", "one", "episode"]

/-- True if the query looks like a title, not a description: at most four words
and none of the words that start a description. -/
def titleLike (u : Unicode) (query : String) : Bool :=
  let w := words u query
  decide (w.length ≤ 4) && !w.any fun x => descriptive.contains x

example : words .asciiHan "Frieren: Beyond Journey's End" =
    ["frieren", "beyond", "journey", "s", "end"] := by decide

example : skeleton .asciiHan "freeran" = "frn" := by decide

example : (titleLike .asciiHan "spy famly",
    titleLike .asciiHan "a b c d e") = (true, false) := by decide

section Words

variable {u : Unicode}

theorem letterRuns_append {c : Char} (hc : u.isAlphanumeric c = false)
    (s t : List Char) :
    letterRuns u (s ++ c :: t) = letterRuns u s ++ letterRuns u t := by
  refine runs_append_cons ?_ s t
  rw [hc]
  rfl

/-- The words of a text are those before a whitespace character and those
behind it. -/
theorem words_append {c : Char} (hc : isWhitespace c = true)
    (s t : List Char) :
    words u (String.ofList (s ++ c :: t)) =
      words u (String.ofList s) ++ words u (String.ofList t) := by
  simp only [words, String.toList_ofList]
  rw [Unicode.toLowercase_append hc,
    letterRuns_append (u.isAlphanumeric_whitespace c hc), List.map_append]

theorem words_nil : words u (String.ofList []) = [] := rfl

theorem spoken_mem_or_eq (w : String) :
    (∃ p ∈ numberWords, spoken w = p.2) ∨ spoken w = w := by
  rw [spoken]
  rcases hfind : numberWords.find? (fun p => p.1 = w) with _ | p
  · rw [hfind]
    exact Or.inr rfl
  · rw [hfind]
    exact Or.inl ⟨p, List.mem_of_find?_eq_some hfind, rfl⟩

theorem spoken_eq_self {w : String} (h : ∀ p ∈ numberWords, p.1 ≠ w) :
    spoken w = w := by
  have hnone : numberWords.find? (fun p => p.1 = w) = none := by
    rw [List.find?_eq_none]
    intro p hp heq
    exact h p hp (of_decide_eq_true heq)
  rw [spoken, hnone]
  rfl

theorem ascii_of_numberWords :
    ∀ p ∈ numberWords, ∀ c ∈ p.1.toList, c.toNat < 128 := by decide

theorem spoken_of_not_ascii {w : List Char} {c : Char} (hc : c ∈ w)
    (h : 128 ≤ c.toNat) : spoken (String.ofList w) = String.ofList w := by
  refine spoken_eq_self fun p hp heq => ?_
  have hascii := ascii_of_numberWords p hp c
  rw [heq, String.toList_ofList] at hascii
  exact absurd (hascii hc) (Nat.not_lt.mpr h)

theorem digits_of_numberWords :
    ∀ p ∈ numberWords, p.2.toList ≠ [] ∧
      ∀ c ∈ p.2.toList, c.toNat < 128 ∧ c.isAlphanum = true := by decide

/-- A word has letters and digits, and nothing else. -/
theorem word_spec {s w : String} (hw : w ∈ words u s) :
    w.toList ≠ [] ∧ ∀ c ∈ w.toList, u.isAlphanumeric c = true := by
  obtain ⟨run, hrun, rfl⟩ := List.mem_map.mp hw
  rcases spoken_mem_or_eq (String.ofList run) with ⟨p, hp, heq⟩ | heq
  · rw [heq]
    refine ⟨(digits_of_numberWords p hp).1, fun c hc => ?_⟩
    obtain ⟨hascii, halnum⟩ := (digits_of_numberWords p hp).2 c hc
    rw [u.isAlphanumeric_ascii c hascii, halnum]
  · rw [heq, String.toList_ofList]
    refine ⟨(mem_runs hrun).1, fun c hc => ?_⟩
    exact (Bool.not_eq_false' _).mp ((mem_runs hrun).2 c hc)

theorem word_ne_of_ascii {s w : String} (hw : w ∈ words u s) {c d : Char}
    (hc : c ∈ w.toList) (hascii : d.toNat < 128)
    (hd : d.isAlphanum = false) : c ≠ d := by
  rintro rfl
  have halnum := (word_spec hw).2 c hc
  rw [u.isAlphanumeric_ascii c hascii, hd] at halnum
  exact Bool.false_ne_true halnum

theorem words_of_ascii {w : String} (hne : w.toList ≠ [])
    (hletters : ∀ c ∈ w.toList, c.isAlphanum = true ∧ c.toLower = c)
    (hspoken : spoken w = w) : words u w = [w] := by
  have hascii : ∀ c ∈ w.toList, c.toNat < 128 := by
    intro c hc
    have halnum := (isAlphanum_iff c).mp (hletters c hc).1
    omega
  have hlower : w.toList.map Char.toLower = w.toList :=
    (List.map_congr_left fun c hc => (hletters c hc).2).trans (List.map_id _)
  have hrun : letterRuns u w.toList = [w.toList] := by
    refine runs_eq_singleton hne fun c hc => ?_
    rw [u.isAlphanumeric_ascii c (hascii c hc), (hletters c hc).1]
    rfl
  rw [words, Unicode.toLowercase, Unicode.toLowercaseFrom_ascii hascii,
    hlower, hrun, List.map_singleton, String.ofList_toList, hspoken]

theorem plain_digits_of_numberWords :
    ∀ p ∈ numberWords,
      (∀ c ∈ p.2.toList, c.isAlphanum = true ∧ c.toLower = c) ∧
        spoken p.2 = p.2 := by decide

/-- A word of a text stays as it is when it is read again. -/
theorem words_of_word (hu : u.KeepsLower) {s w : String}
    (hw : w ∈ words u s) : words u w = [w] := by
  obtain ⟨run, hrun, rfl⟩ := List.mem_map.mp hw
  rcases spoken_mem_or_eq (String.ofList run) with ⟨p, hp, heq⟩ | heq
  · rw [heq]
    obtain ⟨hletters, hspoken⟩ := plain_digits_of_numberWords p hp
    exact words_of_ascii (digits_of_numberWords p hp).1 hletters hspoken
  · have hmem : ∀ c ∈ run, c ∈ u.toLowercase s.toList := fun c hc =>
      (mem_flatten_runs_iff.mp (List.mem_flatten_of_mem hrun hc)).1
    have hlower : u.toLowercase run = run :=
      Unicode.toLowercaseFrom_eq_self
        (fun c hc => hu.of_mem_toLowercaseFrom (hmem c hc)) []
    have hruns : letterRuns u run = [run] :=
      runs_eq_singleton (mem_runs hrun).1 (mem_runs hrun).2
    rw [heq, words, String.toList_ofList, hlower, hruns, List.map_singleton,
      heq]

theorem words_intercalate {ws : List String}
    (h : ∀ w ∈ ws, words u w = [w]) : words u (" ".intercalate ws) = ws := by
  induction ws with
  | nil => exact words_nil
  | cons w ws ih =>
      rw [List.forall_mem_cons] at h
      rcases eq_or_ne ws [] with rfl | hne
      · rw [String.intercalate_singleton, h.1]
      · have hsplit : " ".intercalate (w :: ws) =
            String.ofList (w.toList ++ ' ' :: (" ".intercalate ws).toList) := by
          rw [String.intercalate_cons_of_ne_nil hne, ← String.toList_inj]
          simp
        rw [hsplit, words_append (by decide), String.ofList_toList,
          String.ofList_toList, h.1, ih h.2]
        rfl

end Words

end AssistantHub.TitleText
