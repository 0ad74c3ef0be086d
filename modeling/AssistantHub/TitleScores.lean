import AssistantHub.TitleText
import Mathlib.Data.List.Perm.Subperm
import Mathlib.Data.List.TakeWhile

namespace AssistantHub.TitleScores

open Runs TitleText UnicodeText

/-- Words that people say or that STT writes between title words. They are
ignored in the query. -/
def filler : List String :=
  ["the", "a", "an", "x", "by", "and", "ex", "of", "on", "jellyfin"]

/-- How well a title matches the query: the whole title, the title before a
colon, or all query words as words of the title. -/
inductive Score where
  | exact
  | main
  | words
  deriving DecidableEq

/-- The title before a colon: "Frieren" for "Frieren: Beyond Journey's End". -/
def mainTitle (title : String) : String :=
  String.ofList (title.toList.takeWhile fun c => c ≠ ':')

/-- The words that are no filler. -/
def contentWords (u : Unicode) (s : String) : List String :=
  (words u s).filter fun w => !filler.contains w

/-- All query words must be in the title (or its main part), and they must be
more than half of its words: "the office" must not find "Office Space". -/
def covers (u : Unicode) (wanted : List String) (t : String) : Bool :=
  let haveWords := contentWords u t
  (wanted.all fun w => haveWords.contains w) &&
    decide (haveWords.length < wanted.length * 2)

def score (u : Unicode) (query title : String) : Option Score :=
  let q := squashed u query
  if q.isEmpty then none
  else if q = squashed u title then some .exact
  else if q = squashed u (mainTitle title) then some .main
  else
    let wanted := contentWords u query
    if !wanted.isEmpty &&
        (covers u wanted title || covers u wanted (mainTitle title)) then
      some .words
    else none

example : score .asciiHan "the office" "Office Space" = none := by decide

example : score .asciiHan "spy by family" "Spy x Family" = some .words := by
  decide

section Coverage

variable (u : Unicode) (query : String)

/-- The words of the title that the query names, as often as the title has
them. -/
def named (t : String) : List String :=
  (contentWords u t).filter fun w => (contentWords u query).contains w

/-- The title holds all that the query asks for. -/
def Holds (t : String) : Prop := contentWords u query ⊆ contentWords u t

/-- The query names more than half of the words of the title. -/
def NamesMost (t : String) : Prop :=
  (contentWords u t).length < 2 * (named u query t).length

/-- The query says more than half as many words as the title has, each word as
often as it is said. -/
def SaysMost (t : String) : Prop :=
  (contentWords u t).length < 2 * (contentWords u query).length

/-- The title or its main part holds the whole query and is mostly named by
it. -/
def MatchesMost (title : String) : Prop :=
  ∃ t ∈ [title, mainTitle title], Holds u query t ∧ NamesMost u query t

/-- The query says more than half as many words as the title has only because
it repeats some: it has no more than half as many different words. -/
def RepeatsCount (t : String) : Prop :=
  2 * (contentWords u query).dedup.length ≤ (contentWords u t).length ∧
    SaysMost u query t

/-- The query and the title, or its main part, are the same letters, or there
are none. -/
def SameLetters (title : String) : Prop :=
  squashed u query = "" ∨ squashed u query = squashed u title ∨
    squashed u query = squashed u (mainTitle title)

variable {u} {query}

theorem covers_iff (t : String) :
    covers u (contentWords u query) t = true ↔
      Holds u query t ∧ SaysMost u query t := by
  rw [covers, Bool.and_eq_true, decide_eq_true_iff, List.all_eq_true, Holds,
    SaysMost, Nat.mul_comm]
  refine and_congr_left fun _ => forall_congr' fun w => ?_
  rw [List.contains_iff_mem]

theorem score_of_not_sameLetters {title : String}
    (h : ¬SameLetters u query title) :
    score u query title =
      if !(contentWords u query).isEmpty &&
          (covers u (contentWords u query) title ||
            covers u (contentWords u query) (mainTitle title)) then
        some .words
      else none := by
  rw [SameLetters, not_or, not_or] at h
  rw [score, if_neg, if_neg h.2.1, if_neg h.2.2]
  rw [String.isEmpty_iff]
  exact h.1

theorem score_ne_words_of_sameLetters {title : String}
    (h : SameLetters u query title) : score u query title ≠ some .words := by
  rw [score]
  split
  · exact nofun
  · rename_i hne
    split
    · exact nofun
    · rename_i hexact
      rw [String.isEmpty_iff] at hne
      rw [if_pos ((h.resolve_left hne).resolve_left hexact)]
      exact nofun

theorem score_eq_words_iff (title : String) :
    score u query title = some .words ↔
      ¬SameLetters u query title ∧
        ∃ t ∈ [title, mainTitle title],
          Holds u query t ∧ SaysMost u query t := by
  by_cases hsame : SameLetters u query title
  · exact iff_of_false (score_ne_words_of_sameLetters hsame)
      fun h => h.1 hsame
  · rw [score_of_not_sameLetters hsame, and_iff_right hsame]
    have hmost : ∀ t, SaysMost u query t →
        (contentWords u query).isEmpty = false := by
      intro t ht
      rw [List.isEmpty_eq_false_iff, ← List.length_pos_iff]
      rw [SaysMost] at ht
      omega
    simp only [List.mem_cons, List.not_mem_nil, or_false, exists_eq_or_imp,
      exists_eq_left, ← covers_iff]
    constructor
    · intro h
      split at h
      · rename_i hboth
        rw [Bool.and_eq_true, Bool.or_eq_true] at hboth
        exact hboth.2
      · cases h
    · intro h
      have hne : (contentWords u query).isEmpty = false := by
        rcases h with h | h
        · exact hmost _ ((covers_iff _).mp h).2
        · exact hmost _ ((covers_iff _).mp h).2
      rw [← Bool.or_eq_true] at h
      rw [if_pos]
      rw [hne, h]
      rfl

theorem namesMost_of_not_repeatsCount {t : String} (hholds : Holds u query t)
    (hmost : SaysMost u query t) (h : ¬RepeatsCount u query t) :
    NamesMost u query t := by
  have hsub : (contentWords u query).dedup ⊆ named u query t := by
    intro w hw
    have hquery := List.mem_dedup.mp hw
    exact List.mem_filter.mpr
      ⟨hholds hquery, List.contains_iff_mem.mpr hquery⟩
  have hle := (List.subperm_of_subset (List.nodup_dedup _) hsub).length_le
  rw [RepeatsCount, and_iff_left hmost] at h
  rw [NamesMost]
  omega

theorem not_repeatsCount_of_nodup (hnodup : (contentWords u query).Nodup)
    (t : String) : ¬RepeatsCount u query t := by
  rw [RepeatsCount, List.dedup_eq_self.mpr hnodup, SaysMost]
  omega

theorem matchesMost_of_not_repeatsCount {title : String}
    (h : ∀ t ∈ [title, mainTitle title],
      Holds u query t → ¬RepeatsCount u query t)
    (hscore : score u query title = some .words) :
    MatchesMost u query title := by
  obtain ⟨-, t, ht, hholds, hmost⟩ := (score_eq_words_iff title).mp hscore
  exact ⟨t, ht, hholds, namesMost_of_not_repeatsCount hholds hmost (h t ht hholds)⟩

end Coverage

section Repeats

variable {u : Unicode} {query : String}

/-- A word that is longer than any text of `n` letters. -/
def longWord (n : Nat) : String := String.ofList (List.replicate (n + 1) 'z')

theorem ne_longWord {w : String} (h : ∃ c ∈ w.toList, c ≠ 'z') (n : Nat) :
    w ≠ longWord n := by
  rintro rfl
  obtain ⟨c, hc, hne⟩ := h
  rw [longWord, String.toList_ofList] at hc
  exact hne (List.eq_of_mem_replicate hc)

theorem words_longWord (n : Nat) : words u (longWord n) = [longWord n] := by
  have hother : ∀ p ∈ numberWords, ∃ c ∈ p.1.toList, c ≠ 'z' := by decide
  apply words_of_ascii
  · simp [longWord]
  · intro c hc
    rw [longWord, String.toList_ofList] at hc
    rw [List.eq_of_mem_replicate hc]
    decide
  · exact spoken_eq_self fun p hp => ne_longWord (hother p hp) n

theorem longWord_not_filler (n : Nat) : longWord n ∉ filler := by
  have hother : ∀ w ∈ filler, ∃ c ∈ w.toList, c ≠ 'z' := by decide
  exact fun h => ne_longWord (hother _ h) n rfl

theorem length_le_squashed {s w : String} (hw : w ∈ words u s) :
    w.toList.length ≤ (squashed u s).toList.length := by
  rw [squashed, String.toList_join]
  exact (List.sublist_flatten_of_mem (List.mem_map_of_mem hw)).length_le

theorem longWord_not_mem_words (s : String) :
    longWord (squashed u s).toList.length ∉ words u s := by
  intro h
  have hle := length_le_squashed h
  rw [longWord, String.toList_ofList, List.length_replicate] at hle
  omega

/-- Each word of the query once, and as many other words. -/
def repeatTitle (u : Unicode) (query : String) : List String :=
  (contentWords u query).dedup ++
    List.replicate (contentWords u query).dedup.length
      (longWord (squashed u query).toList.length)

theorem words_of_mem_repeatTitle (hu : u.KeepsLower) {w : String}
    (hw : w ∈ repeatTitle u query) : words u w = [w] ∧ w ∉ filler := by
  rcases List.mem_append.mp hw with hw | hw
  · obtain ⟨hword, hfiller⟩ := List.mem_filter.mp (List.mem_dedup.mp hw)
    exact ⟨words_of_word hu hword, by simpa using hfiller⟩
  · rw [List.eq_of_mem_replicate hw]
    exact ⟨words_longWord _, longWord_not_filler _⟩

theorem words_repeatTitle (hu : u.KeepsLower) :
    words u (" ".intercalate (repeatTitle u query)) = repeatTitle u query :=
  words_intercalate fun _ hw => (words_of_mem_repeatTitle hu hw).1

theorem contentWords_repeatTitle (hu : u.KeepsLower) :
    contentWords u (" ".intercalate (repeatTitle u query)) =
      repeatTitle u query := by
  rw [contentWords, words_repeatTitle hu, List.filter_eq_self]
  intro w hw
  simpa using (words_of_mem_repeatTitle hu hw).2

theorem mainTitle_repeatTitle (hu : u.KeepsLower) :
    mainTitle (" ".intercalate (repeatTitle u query)) =
      " ".intercalate (repeatTitle u query) := by
  have hcolon : ':' ∉ (" ".intercalate (repeatTitle u query)).toList := by
    rw [String.toList_intercalate]
    refine not_mem_intercalate (by decide) fun l hl => ?_
    obtain ⟨w, hw, rfl⟩ := List.mem_map.mp hl
    have hword : w ∈ words u w := by
      rw [(words_of_mem_repeatTitle hu hw).1]
      exact List.mem_singleton_self w
    exact fun hc => word_ne_of_ascii hword hc (d := ':') (by decide) (by decide) rfl
  rw [mainTitle, List.takeWhile_eq_self_iff.mpr, String.ofList_toList]
  intro c hc
  simp only [decide_eq_true_eq]
  rintro rfl
  exact hcolon hc

theorem named_repeatTitle (hu : u.KeepsLower) :
    named u query (" ".intercalate (repeatTitle u query)) =
      (contentWords u query).dedup := by
  rw [named, contentWords_repeatTitle hu, repeatTitle, List.filter_append,
    List.filter_eq_self.mpr, List.filter_eq_nil_iff.mpr, List.append_nil]
  · intro w hw
    rw [List.eq_of_mem_replicate hw, List.contains_iff_mem]
    exact fun h => longWord_not_mem_words query (List.mem_of_mem_filter h)
  · intro w hw
    exact List.contains_iff_mem.mpr (List.mem_dedup.mp hw)

theorem not_sameLetters_repeatTitle (hu : u.KeepsLower)
    (hne : contentWords u query ≠ []) :
    ¬SameLetters u query (" ".intercalate (repeatTitle u query)) := by
  obtain ⟨w, hw⟩ := List.exists_mem_of_ne_nil _ hne
  have hlong : longWord (squashed u query).toList.length ∈
      words u (" ".intercalate (repeatTitle u query)) := by
    rw [words_repeatTitle hu]
    apply List.mem_append_right
    rw [List.mem_replicate]
    refine ⟨?_, rfl⟩
    rw [Ne, List.length_eq_zero_iff]
    exact List.ne_nil_of_mem (List.mem_dedup.mpr hw)
  have hother : squashed u query ≠
      squashed u (" ".intercalate (repeatTitle u query)) := by
    intro heq
    have hle := length_le_squashed hlong
    rw [← heq, longWord, String.toList_ofList, List.length_replicate] at hle
    omega
  rw [SameLetters, mainTitle_repeatTitle hu, or_self, not_or]
  refine ⟨?_, hother⟩
  intro hempty
  have hword := List.mem_of_mem_filter hw
  have hle := length_le_squashed hword
  rw [hempty] at hle
  exact (word_spec hword).1 (List.length_eq_zero_iff.mp (Nat.le_zero.mp hle))

theorem exists_not_matchesMost (hu : u.KeepsLower)
    (hrepeats : ¬(contentWords u query).Nodup) :
    ∃ title, score u query title = some .words ∧
      ¬MatchesMost u query title := by
  have hne : contentWords u query ≠ [] := by
    intro hnil
    rw [hnil] at hrepeats
    exact hrepeats List.nodup_nil
  have hless : (contentWords u query).dedup.length <
      (contentWords u query).length := by
    refine Nat.lt_of_le_of_ne (List.dedup_sublist _).length_le fun heq => ?_
    exact hrepeats (List.dedup_eq_self.mp
      ((List.dedup_sublist _).eq_of_length heq))
  have hlength : (repeatTitle u query).length =
      2 * (contentWords u query).dedup.length := by
    rw [repeatTitle, List.length_append, List.length_replicate, Nat.two_mul]
  refine ⟨" ".intercalate (repeatTitle u query), ?_, ?_⟩
  · rw [score_eq_words_iff]
    refine ⟨not_sameLetters_repeatTitle hu hne, _, List.mem_cons_self, ?_, ?_⟩
    · rw [Holds, contentWords_repeatTitle hu]
      exact fun w hw => List.mem_append_left _ (List.mem_dedup.mpr hw)
    · rw [SaysMost, contentWords_repeatTitle hu, hlength]
      omega
  · rintro ⟨t, ht, -, hnames⟩
    rw [mainTitle_repeatTitle hu, List.mem_pair, or_self] at ht
    rw [ht, NamesMost, contentWords_repeatTitle hu, hlength,
      named_repeatTitle hu] at hnames
    exact Nat.lt_irrefl _ hnames

/-- Every match by words names more than half of the title or its main part
exactly when the query repeats no word. For one title it is enough that the
repeated words do not count. -/
theorem score_words_iff (hu : u.KeepsLower) (query : String) :
    ((∀ title, score u query title = some .words → MatchesMost u query title) ↔
      (contentWords u query).Nodup) ∧
    ∀ title,
      (SameLetters u query title ∨ ∀ t ∈ [title, mainTitle title],
        Holds u query t → ¬RepeatsCount u query t) →
      score u query title = some .words → MatchesMost u query title := by
  refine ⟨⟨?_, ?_⟩, ?_⟩
  · intro hall
    by_contra hrepeats
    obtain ⟨title, hscore, hnot⟩ := exists_not_matchesMost hu hrepeats
    exact hnot (hall title hscore)
  · intro hnodup title
    exact matchesMost_of_not_repeatsCount
      fun t _ _ => not_repeatsCount_of_nodup hnodup t
  · rintro title (hsame | hparts) hscore
    · exact absurd hscore (score_ne_words_of_sameLetters hsame)
    · exact matchesMost_of_not_repeatsCount hparts hscore

theorem score_words_iff_office :
    (∀ title, score .asciiHan "the office" title = some .words →
      MatchesMost .asciiHan "the office" title) ∧
    ¬∀ title, score .asciiHan "office office" title = some .words →
      MatchesMost .asciiHan "office office" title :=
  ⟨(score_words_iff Unicode.keepsLower_asciiHan "the office").1.mpr (by decide),
    fun h => absurd
      ((score_words_iff Unicode.keepsLower_asciiHan "office office").1.mp h)
      (by decide)⟩

end Repeats

theorem score_office_office :
    score .asciiHan "office office" "Office Space" = some .words ∧
      ¬MatchesMost .asciiHan "office office" "Office Space" := by
  refine ⟨by decide, ?_⟩
  unfold MatchesMost Holds NamesMost
  decide

end AssistantHub.TitleScores
