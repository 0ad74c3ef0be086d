import AssistantHub.TitleScores
import Mathlib.Data.List.Chain

namespace AssistantHub.TitleChecks

open Rounding RustText Runs TitleScores TitleText UnicodeText

/-- For a title-like query, the semantic winner must share letters with it. -/
def semanticTitleMin : ℚ := roundF32 (1 / 5)

def semanticTitleOk (u : Unicode) (query title : String) : Bool :=
  if !titleLike u query then true
  else
    let sim := max (similarity u query title)
      (similarity u query (mainTitle title))
    decide (semanticTitleMin ≤ sim) ||
      (skeleton u query).toList.isPrefixOf
        (skeleton u (mainTitle title)).toList

/-- The letters and digits of all words. -/
def letters (u : Unicode) (s : String) : List Char :=
  (String.join (words u s)).toList

/-- No letter or digit of one text occurs in the other one. -/
def Apart (u : Unicode) (a b : String) : Prop :=
  ∀ c ∈ letters u a, c ∉ letters u b

theorem semanticTitleMin_pos : 0 < semanticTitleMin := by
  have hvalue : semanticTitleMin = 13421773 / 2 ^ 26 := by decide +kernel
  rw [hvalue]
  norm_num

section Letters

variable {u : Unicode}

theorem mem_letters_iff {s : String} {c : Char} :
    c ∈ letters u s ↔ ∃ w ∈ words u s, c ∈ w.toList := by
  rw [letters, String.toList_join, List.mem_flatMap]

theorem isAlphanumeric_of_sameButSigma {c d : Char}
    (h : Unicode.SameButSigma c d) : (!u.isAlphanumeric c) = !u.isAlphanumeric d := by
  rcases h with rfl | ⟨rfl, rfl⟩
  · rfl
  · rw [u.isAlphanumeric_sigma.1, u.isAlphanumeric_sigma.2]

theorem eq_or_sigma_of_sameButSigma {l l' : List Char}
    (h : List.Forall₂ Unicode.SameButSigma l l') :
    l = l' ∨ 'ς' ∈ l ∧ 'σ' ∈ l' := by
  induction h with
  | nil => exact Or.inl rfl
  | cons hfirst _ ih =>
      rcases hfirst with rfl | ⟨rfl, rfl⟩
      · rcases ih with rfl | ⟨hl, hl'⟩
        · exact Or.inl rfl
        · exact Or.inr ⟨List.mem_cons_of_mem _ hl, List.mem_cons_of_mem _ hl'⟩
      · exact Or.inr ⟨List.mem_cons_self, List.mem_cons_self⟩

theorem exists_mem_spoken {run run' : List Char}
    (h : List.Forall₂ Unicode.SameButSigma run run') {c : Char}
    (hc : c ∈ (spoken (String.ofList run)).toList) :
    ∃ d ∈ (spoken (String.ofList run')).toList, Unicode.SameButSigma c d := by
  rcases eq_or_sigma_of_sameButSigma h with rfl | ⟨hsigma, hsigma'⟩
  · exact ⟨c, hc, Or.inl rfl⟩
  · rw [spoken_of_not_ascii hsigma (by decide), String.toList_ofList] at hc
    rw [spoken_of_not_ascii hsigma' (by decide), String.toList_ofList]
    exact exists_mem_of_forall₂ h hc

/-- The part of a title before a colon has the letters that it has in the title,
but for a sigma at its end. -/
theorem mem_letters_mainTitle {title : String} {c : Char}
    (h : c ∈ letters u (mainTitle title)) :
    c ∈ letters u title ∨ c = 'ς' ∧ 'σ' ∈ letters u title := by
  rcases no_sep_or_first (fun c => decide (c = ':')) title.toList with
    hnone | ⟨main, colon, rest, htitle, hmain, hcolon⟩
  · have hwhole : mainTitle title = title := by
      rw [mainTitle, List.takeWhile_eq_self_iff.mpr, String.ofList_toList]
      intro c hc
      simpa using hnone c hc
    exact Or.inl (hwhole ▸ h)
  · obtain rfl := of_decide_eq_true hcolon
    have hpart : (mainTitle title).toList = main := by
      rw [mainTitle, htitle, String.toList_ofList, List.takeWhile_append_of_pos,
        List.takeWhile_cons_of_neg (by simp), List.append_nil]
      intro c hc
      simpa using hmain c hc
    obtain ⟨l, hlower, hsame⟩ :=
      u.exists_toLowercaseFrom_append [] main (':' :: rest)
    have hruns : letterRuns u (u.toLowercase title.toList) =
        letterRuns u l ++
          letterRuns u (u.toLowercaseFrom (':' :: (main.reverse ++ [])) rest) := by
      rw [htitle, Unicode.toLowercase, hlower, Unicode.toLowercaseFrom,
        if_neg (by decide), u.toLower_ascii ':' (by decide)]
      apply letterRuns_append
      rw [u.isAlphanumeric_ascii _ (by decide)]
      decide
    obtain ⟨w, hw, hc⟩ := mem_letters_iff.mp h
    obtain ⟨run, hrun, rfl⟩ := List.mem_map.mp hw
    rw [hpart] at hrun
    have hparts := @forall₂_runs _ (fun c => !u.isAlphanumeric c) _
      (fun _ _ => isAlphanumeric_of_sameButSigma) _ _ hsame
    obtain ⟨run', hrun', hlike⟩ := exists_mem_of_forall₂ hparts hrun
    obtain ⟨d, hd, hcd⟩ := exists_mem_spoken hlike hc
    have hletter : d ∈ letters u title := by
      refine mem_letters_iff.mpr ⟨_, List.mem_map_of_mem ?_, hd⟩
      rw [hruns]
      exact List.mem_append_left _ hrun'
    rcases hcd with rfl | ⟨rfl, rfl⟩
    · exact Or.inl hletter
    · exact Or.inr ⟨rfl, hletter⟩

theorem apart_mainTitle {query title : String} (h : Apart u query title)
    (hsigma : 'ς' ∉ letters u query) : Apart u query (mainTitle title) := by
  intro c hc hmain
  rcases mem_letters_mainTitle hmain with htitle | ⟨rfl, -⟩
  · exact h c hc htitle
  · exact hsigma hc

theorem mem_skeletonFrom {out l : List Char} {c : Char}
    (h : c ∈ skeletonFrom out l) : c ∈ out ∨ c ∈ l := by
  induction l generalizing out with
  | nil => exact Or.inl h
  | cons d l ih =>
      rw [skeletonFrom] at h
      split at h
      · exact (ih h).imp_right (List.mem_cons_of_mem d)
      · split at h
        · exact (ih h).imp_right (List.mem_cons_of_mem d)
        · rcases ih h with hout | hl
          · rcases List.mem_append.mp hout with hout | hd
            · exact Or.inl hout
            · exact Or.inr (List.mem_cons.mpr
                (Or.inl (List.mem_singleton.mp hd)))
          · exact Or.inr (List.mem_cons_of_mem d hl)

theorem mem_letters_of_mem_skeleton {s : String} {c : Char}
    (h : c ∈ (skeleton u s).toList) : c ∈ letters u s := by
  rw [skeleton, String.toList_ofList] at h
  exact (mem_skeletonFrom h).resolve_left List.not_mem_nil

theorem not_isPrefixOf_skeleton {a b : String} (hapart : Apart u a b)
    (hne : skeleton u a ≠ "") :
    (skeleton u a).toList.isPrefixOf (skeleton u b).toList = false := by
  rw [← Bool.not_eq_true, List.isPrefixOf_iff_prefix]
  intro hpre
  have hlist : (skeleton u a).toList ≠ [] := by
    rwa [Ne, String.toList_eq_nil_iff]
  obtain ⟨c, hc⟩ := List.exists_mem_of_ne_nil _ hlist
  exact hapart c (mem_letters_of_mem_skeleton hc)
    (mem_letters_of_mem_skeleton (hpre.subset hc))

end Letters

/-- Of any two neighbours one is no space. -/
def Spaced (l : List Char) : Prop := l.IsChain fun a b => a ≠ ' ' ∨ b ≠ ' '

theorem mem_of_mem_windows {l : List Char} {a b c : Char}
    (h : (a, b, c) ∈ windows l) : a ∈ l ∧ b ∈ l ∧ c ∈ l := by
  induction l with
  | nil => exact absurd h List.not_mem_nil
  | cons x l ih =>
      rcases l with _ | ⟨y, _ | ⟨z, l⟩⟩
      · exact absurd h List.not_mem_nil
      · exact absurd h List.not_mem_nil
      · rw [windows] at h
        rcases List.mem_cons.mp h with heq | h
        · cases heq
          simp
        · obtain ⟨ha, hb, hc⟩ := ih h
          exact ⟨List.mem_cons_of_mem x ha, List.mem_cons_of_mem x hb,
            List.mem_cons_of_mem x hc⟩

theorem Spaced.windows {l : List Char} (hl : Spaced l) {a b c : Char}
    (h : (a, b, c) ∈ TitleText.windows l) : a ≠ ' ' ∨ b ≠ ' ' := by
  induction l with
  | nil => exact absurd h List.not_mem_nil
  | cons x l ih =>
      rcases l with _ | ⟨y, _ | ⟨z, l⟩⟩
      · exact absurd h List.not_mem_nil
      · exact absurd h List.not_mem_nil
      · rw [TitleText.windows] at h
        rw [Spaced, List.isChain_cons_cons] at hl
        rcases List.mem_cons.mp h with heq | h
        · cases heq
          exact hl.1
        · exact ih hl.2 h

/-- Each word with a space behind it. -/
def body (ws : List String) : List Char := ws.flatMap fun w => w.toList ++ [' ']

theorem intercalate_append_space {ws : List String} (hws : ws ≠ []) :
    (" ".intercalate ws).toList ++ " ".toList = body ws := by
  induction ws with
  | nil => exact absurd rfl hws
  | cons w ws ih =>
      rcases ws with _ | ⟨v, ws⟩
      · simp [body]
      · have hrest := ih (List.cons_ne_nil v ws)
        rw [String.intercalate_cons_cons, String.toList_append,
          String.toList_append, List.append_assoc, hrest]
        simp [body]

theorem spaced_body {ws : List String}
    (h : ∀ w ∈ ws, w.toList ≠ [] ∧ ∀ c ∈ w.toList, c ≠ ' ') :
    Spaced (' ' :: body ws) := by
  induction ws with
  | nil => exact List.IsChain.singleton ' '
  | cons w ws ih =>
      rw [List.forall_mem_cons] at h
      obtain ⟨⟨hne, hword⟩, hrest⟩ := h
      have hbody : ' ' :: body (w :: ws) =
          ' ' :: (w.toList ++ ' ' :: body ws) := by
        simp [body]
      have hinner : Spaced w.toList :=
        (List.pairwise_of_forall_mem_list fun a ha _ _ =>
          Or.inl (hword a ha)).isChain
      rw [hbody, Spaced, List.isChain_cons, List.isChain_append]
      refine ⟨?_, hinner, ih hrest, ?_⟩
      · intro c hc
        rw [List.head?_append_of_ne_nil _ hne] at hc
        exact Or.inr (hword c (List.mem_of_mem_head? hc))
      · intro a ha b hb
        exact Or.inl (hword a (List.mem_of_getLast? ha))

section Trigrams

variable {u : Unicode}

theorem mem_letters_of_mem_body {s : String} {c : Char}
    (hc : c ∈ body (words u s)) (hspace : c ≠ ' ') : c ∈ letters u s := by
  obtain ⟨w, hw, hc⟩ := List.mem_flatMap.mp hc
  refine mem_letters_iff.mpr ⟨w, hw, ?_⟩
  rcases List.mem_append.mp hc with hc | hc
  · exact hc
  · exact absurd (List.mem_singleton.mp hc) hspace

theorem mem_letters_of_mem_padded {s : String} {c : Char}
    (hc : c ∈ ' ' :: ' ' :: body (words u s)) (hspace : c ≠ ' ') :
    c ∈ letters u s := by
  rcases List.mem_cons.mp hc with hc | hc
  · exact absurd hc hspace
  · rcases List.mem_cons.mp hc with hc | hc
    · exact absurd hc hspace
    · exact mem_letters_of_mem_body hc hspace

theorem mem_windows_of_mem_trigrams {s : String} {a b c : Char}
    (h : (a, b, c) ∈ trigrams u s) :
    (a, b, c) ∈ windows (' ' :: ' ' :: body (words u s)) := by
  rw [trigrams] at h
  split at h
  · exact absurd h (Finset.notMem_empty _)
  · rename_i hne
    have hws : words u s ≠ [] := by
      intro hnil
      rw [hnil] at hne
      exact hne rfl
    rwa [List.mem_toFinset, List.append_assoc,
      intercalate_append_space hws] at h

/-- Of three neighbours behind two spaces one is no space: only the two in front
are side by side. -/
theorem exists_ne_space_of_windows {l : List Char} (hl : Spaced (' ' :: l))
    {a b c : Char} (h : (a, b, c) ∈ windows (' ' :: ' ' :: l)) :
    ∃ d ∈ [a, b, c], d ≠ ' ' := by
  rcases l with _ | ⟨x, rest⟩
  · exact absurd h List.not_mem_nil
  · rcases List.mem_cons.mp h with heq | h
    · cases heq
      rw [Spaced, List.isChain_cons_cons] at hl
      exact ⟨c, by simp, hl.1.resolve_left (not_not_intro rfl)⟩
    · rcases hl.windows h with ha | hb
      · exact ⟨a, by simp, ha⟩
      · exact ⟨b, by simp, hb⟩

theorem trigram_spec {s : String} {a b c : Char}
    (h : (a, b, c) ∈ trigrams u s) :
    (∃ d ∈ [a, b, c], d ≠ ' ') ∧
      ∀ d ∈ [a, b, c], d ≠ ' ' → d ∈ letters u s := by
  have hwindow := mem_windows_of_mem_trigrams h
  have hspaced : Spaced (' ' :: body (words u s)) :=
    spaced_body fun w hw =>
      ⟨(word_spec hw).1, fun c hc => word_ne_of_ascii hw hc (by decide) (by decide)⟩
  obtain ⟨ha, hb, hc⟩ := mem_of_mem_windows hwindow
  refine ⟨exists_ne_space_of_windows hspaced hwindow, ?_⟩
  intro d hd
  simp only [List.mem_cons, List.not_mem_nil, or_false] at hd
  rcases hd with rfl | rfl | rfl
  · exact mem_letters_of_mem_padded ha
  · exact mem_letters_of_mem_padded hb
  · exact mem_letters_of_mem_padded hc

theorem similarity_of_apart {s t : String} (h : Apart u s t) :
    similarity u s t = 0 := by
  have hdisjoint : trigrams u s ∩ trigrams u t = ∅ := by
    rw [Finset.eq_empty_iff_forall_notMem]
    rintro ⟨a, b, c⟩ hmem
    obtain ⟨hs, ht⟩ := Finset.mem_inter.mp hmem
    obtain ⟨⟨d, hd, hspace⟩, hletter⟩ := trigram_spec hs
    exact h d (hletter d hd hspace) ((trigram_spec ht).2 d hd hspace)
  rw [similarity, trigramSimilarity, hdisjoint, Finset.card_empty,
    ratioF32_zero]
  split
  · rfl
  · rfl

end Trigrams

section Semantic

variable {u : Unicode} {query title : String}

theorem semanticTitleOk_eq_false_iff (hlike : titleLike u query = true) :
    semanticTitleOk u query title = false ↔
      similarity u query title < semanticTitleMin ∧
        similarity u query (mainTitle title) < semanticTitleMin ∧
        (skeleton u query).toList.isPrefixOf
          (skeleton u (mainTitle title)).toList = false := by
  rw [semanticTitleOk, hlike]
  show (decide _ || _) = false ↔ _
  rw [Bool.or_eq_false_iff, decide_eq_false_iff_not, not_le, max_lt_iff,
    and_assoc]

/-- A title-like query is turned down for a title without a common letter if
and only if it has a consonant, and the part of the title before a colon has no
common letter either or is told apart by its trigrams and consonants. Only a
query with a final sigma can have a letter in common with that part alone. -/
theorem semanticTitleOk_of_apart_iff (hlike : titleLike u query = true)
    (hapart : Apart u query title) :
    (semanticTitleOk u query title = false ↔
      skeleton u query ≠ "" ∧
        (Apart u query (mainTitle title) ∨
          similarity u query (mainTitle title) < semanticTitleMin ∧
            (skeleton u query).toList.isPrefixOf
              (skeleton u (mainTitle title)).toList = false)) ∧
    ('ς' ∉ letters u query → Apart u query (mainTitle title)) := by
  refine ⟨?_, apart_mainTitle hapart⟩
  rw [semanticTitleOk_eq_false_iff hlike, similarity_of_apart hapart,
    and_iff_right semanticTitleMin_pos]
  constructor
  · rintro ⟨hsim, hpre⟩
    refine ⟨?_, Or.inr ⟨hsim, hpre⟩⟩
    intro hempty
    rw [hempty] at hpre
    cases hpre
  · rintro ⟨hne, hmain | hboth⟩
    · rw [similarity_of_apart hmain]
      exact ⟨semanticTitleMin_pos, not_isPrefixOf_skeleton hmain hne⟩
    · exact hboth

end Semantic

theorem semanticTitleOk_of_apart_zorro :
    semanticTitleOk .asciiHan "Zorro" "Dune" = false := by
  obtain ⟨hiff, hmain⟩ := @semanticTitleOk_of_apart_iff .asciiHan "Zorro" "Dune"
    (by decide) (by unfold Apart; decide)
  exact hiff.mpr ⟨by decide, Or.inl (hmain (by decide))⟩

theorem semanticTitleOk_io :
    titleLike .asciiHan "Io" = true ∧ words .asciiHan "Io" ≠ [] ∧
      Apart .asciiHan "Io" "Dune" ∧
      semanticTitleOk .asciiHan "Io" "Dune" ≠ false := by
  have hlike : titleLike .asciiHan "Io" = true := by decide
  have hempty : (skeleton .asciiHan "Io").toList = [] := by decide
  refine ⟨hlike, by decide, by unfold Apart; decide, ?_⟩
  rw [semanticTitleOk, hlike, hempty]
  show (_ || true) ≠ false
  rw [Bool.or_true]
  exact Bool.false_ne_true.symm

end AssistantHub.TitleChecks
