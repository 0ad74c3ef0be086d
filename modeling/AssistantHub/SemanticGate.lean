import AssistantHub.IndexRank
import Mathlib.Algebra.BigOperators.Group.List.Basic
import Mathlib.Algebra.Order.Field.Rat

namespace AssistantHub.SemanticGate

open IndexRank IndexStore TopSelection

/-- When a semantic match counts: the score itself and its margin over the
rest of the library. -/
structure Gate (F : Type) where
  minScore : F
  minMargin : F

structure Semantic (F : Type) where
  id : String
  kind : Kind
  name : String
  score : F
  margin : F
  accepted : Bool

/-- Places 6 to 25 of the ranking form the "rest of the library" for the
margin. -/
def marginFrom : Nat := 5

def marginTo : Nat := 25

def rankForGate : Nat := 1000

/-- The entry that a hit stands for: an episode counts for its series. -/
def work {F : Type} (ix : Index F) (episodes : Bool) (hit : Hit F) : Entry :=
  match hit.entry.kind, hit.entry.seriesId with
  | .episode, some series =>
      if episodes then hit.entry else (ix.get series).getD hit.entry
  | _, _ => hit.entry

/-- The works of the hits with the best score of each, until there are enough
for the margin. -/
def works {F : Type} (ix : Index F) (episodes : Bool) :
    List (Hit F) → List String → List (Entry × F) → List (Entry × F)
  | [], _, found => found
  | hit :: hits, seen, found =>
      let entry := work ix episodes hit
      let found' :=
        if entry.id ∈ seen then found else found ++ [(entry, hit.score)]
      if marginTo ≤ found'.length then found'
      else works ix episodes hits (entry.id :: seen) found'

/-- Episodes take part only if the query asks for one, and then only
episodes. -/
def takesPart (episodes : Bool) (entry : Entry) : Bool :=
  decide (entry.kind = .episode) == episodes

theorem work_of_takesPart {F : Type} {ix : Index F} {episodes : Bool} {hit : Hit F}
    (h : takesPart episodes hit.entry = true) :
    work ix episodes hit = hit.entry := by
  rw [work]
  split
  · rename_i hkind _
    rw [takesPart, hkind, beq_iff_eq] at h
    rw [← h]
    rfl
  · rfl

theorem works_eq_take {F : Type} {ix : Index F} {episodes : Bool} (hits : List (Hit F))
    (seen : List String) (found : List (Entry × F))
    (hpart : ∀ hit ∈ hits, takesPart episodes hit.entry = true)
    (hnodup : (hits.map fun hit => hit.entry.id).Nodup)
    (hseen : ∀ hit ∈ hits, hit.entry.id ∉ seen)
    (hfound : found.length < marginTo) :
    works ix episodes hits seen found =
      found ++ (hits.take (marginTo - found.length)).map fun hit =>
        (hit.entry, hit.score) := by
  induction hits generalizing seen found with
  | nil => rw [works, List.take_nil, List.map_nil, List.append_nil]
  | cons hit hits ih =>
      rw [List.map_cons, List.nodup_cons] at hnodup
      have hnew : hit.entry.id ∉ seen := hseen hit List.mem_cons_self
      have hsub : marginTo - found.length =
          marginTo - (found.length + 1) + 1 := by omega
      rw [works, work_of_takesPart (hpart hit List.mem_cons_self), if_neg hnew,
        List.length_append, List.length_singleton, hsub, List.take_succ_cons,
        List.map_cons]
      split
      · rename_i hfull
        rw [Nat.sub_eq_zero_of_le hfull, List.take_zero, List.map_nil]
      · rename_i hroom
        rw [ih, List.length_append, List.length_singleton, List.append_assoc,
          List.singleton_append]
        · exact fun later hlater => hpart later (List.mem_cons_of_mem hit hlater)
        · exact hnodup.2
        · intro later hlater hmem
          rcases List.mem_cons.mp hmem with heq | hold
          · exact hnodup.1 (heq ▸ List.mem_map_of_mem hlater)
          · exact hseen later (List.mem_cons_of_mem hit hlater) hold
        · rw [List.length_append, List.length_singleton]
          exact Nat.not_le.mp hroom

section Exact

variable {F : Type} [Field F]

def mean (scores : List F) : F :=
  if scores.isEmpty then 0
  else scores.foldl (fun sum x => sum + x) 0 / (scores.length : F)

/-- The mean score of the places 6 to 25, of as many of them as there are. -/
def restMean (ranking : List F) : F :=
  let rest := (ranking.drop 5).take 20
  if rest = [] then 0 else rest.sum / (rest.length : F)

theorem mean_drop_take (ranking : List F) :
    mean ((ranking.take marginTo).drop marginFrom) = restMean ranking := by
  have hwindow : (ranking.take marginTo).drop marginFrom =
      (ranking.drop 5).take 20 := by
    rw [List.drop_take]
    rfl
  rw [mean, restMean, hwindow, ← List.sum_eq_foldl]
  exact if_congr List.isEmpty_iff rfl rfl

variable [LinearOrder F]

/-- Groups hits by work (an episode counts for its series unless `episodes`),
keeps the best score of each work and applies the gate. -/
def gate (hits : List (Hit F)) (ix : Index F) (episodes : Bool)
    (gate : Gate F) : Option (Semantic F) :=
  let found := works ix episodes hits [] []
  found.head?.map fun best =>
    let margin := best.2 - mean ((found.drop marginFrom).map Prod.snd)
    { id := best.1.id
      kind := best.1.kind
      name :=
        match best.1.kind, best.1.seriesName with
        | .episode, some series => s!"{series}: {best.1.name}"
        | _, _ => best.1.name
      score := best.2
      margin := margin
      accepted := decide (gate.minScore ≤ best.2) &&
        decide (gate.minMargin ≤ margin) }

/-- The best series, movie or episode for the vector of a query. -/
def semantic (sel : Selection (byScore F)) (ix : Index F) (query : List F)
    (episodes : Bool) (g : Gate F) : Option (Semantic F) :=
  gate (Index.rank sel ix query rankForGate (takesPart episodes)) ix episodes g

/-- The scores of all entries that take part, best first. -/
def scores (ix : Index F) (query : List F) (episodes : Bool) : List F :=
  descending ((ix.rows.filter fun r => takesPart episodes r.1).map fun r =>
    dot r.2 query)

theorem works_rank (sel : Selection (byScore F)) {ix : Index F}
    (hwell : ix.WellFormed) (hdims : 0 < ix.dims) {query : List F}
    (hquery : query.length = ix.dims) (episodes : Bool) :
    works ix episodes
        (Index.rank sel ix query rankForGate (takesPart episodes)) [] [] =
      ((Index.rank sel ix query rankForGate (takesPart episodes)).take
        marginTo).map fun hit => (hit.entry, hit.score) := by
  obtain ⟨rest, hranked⟩ := rank_spec sel hwell hdims hquery rankForGate
    (takesPart episodes)
  rw [works_eq_take, List.nil_append, List.length_nil, Nat.sub_zero]
  · intro hit hhit
    exact (mem_passing (hranked.mem_all hhit)).1
  · exact hranked.nodup_ids (nodup_ids_passing hwell query _)
  · exact fun _ _ => List.not_mem_nil
  · exact Nat.zero_lt_succ 24

theorem map_score_works (sel : Selection (byScore F)) {ix : Index F}
    (hwell : ix.WellFormed) (hdims : 0 < ix.dims) {query : List F}
    (hquery : query.length = ix.dims) (episodes : Bool) :
    (works ix episodes
        (Index.rank sel ix query rankForGate (takesPart episodes)) []
        []).map Prod.snd =
      (scores ix query episodes).take marginTo := by
  obtain ⟨rest, hranked⟩ := rank_spec sel hwell hdims hquery rankForGate
    (takesPart episodes)
  have hscores : scores ix query episodes =
      descending ((passing ix query (takesPart episodes)).map Hit.score) := by
    rw [scores, passing, List.map_map]
    rfl
  have hkeys := map_front hranked.perm
    (hranked.sorted.imp isLE_totalCmp_iff.mp)
    (fun x hx y hy => isLE_totalCmp_iff.mp (hranked.best x hx y hy))
  have hall : (scores ix query episodes).length =
      (passing ix query (takesPart episodes)).length := by
    rw [hscores, (descending_perm _).length_eq, List.length_map]
  have hlimits : rankForGate = 1000 ∧ marginTo = 25 := ⟨rfl, rfl⟩
  rw [works_rank sel hwell hdims hquery, List.map_map, List.map_take]
  show ((Index.rank sel ix query rankForGate (takesPart episodes)).map
    Hit.score).take marginTo = _
  rw [hkeys, ← hscores, List.take_take, List.take_eq_take_iff,
    hranked.length_eq]
  omega

theorem mem_works (sel : Selection (byScore F)) {ix : Index F}
    (hwell : ix.WellFormed) (hdims : 0 < ix.dims) {query : List F}
    (hquery : query.length = ix.dims) {episodes : Bool} {p : Entry × F}
    (hp : p ∈ works ix episodes
      (Index.rank sel ix query rankForGate (takesPart episodes)) [] []) :
    takesPart episodes p.1 = true ∧
      ∃ v, (p.1, v) ∈ ix.rows ∧ p.2 = dot v query := by
  obtain ⟨rest, hranked⟩ := rank_spec sel hwell hdims hquery rankForGate
    (takesPart episodes)
  rw [works_rank sel hwell hdims hquery] at hp
  obtain ⟨hit, hhit, rfl⟩ := List.mem_map.mp hp
  exact mem_passing (hranked.mem_all (List.mem_of_mem_take hhit))

theorem scores_eq_nil_iff (ix : Index F) (query : List F) (episodes : Bool) :
    scores ix query episodes = [] ↔
      ∀ entry ∈ ix.entries, takesPart episodes entry = false := by
  rw [scores, descending_eq_nil_iff, List.map_eq_nil_iff,
    List.filter_eq_nil_iff, ← map_fst_rows ix, List.forall_mem_map]
  simp only [Bool.not_eq_true]

/-- The decision of the gate follows from the full ranking of the entries that
take part. -/
theorem semantic_uses_ranking (sel : Selection (byScore F)) {ix : Index F}
    (hwell : ix.WellFormed) (hdims : 0 < ix.dims) {query : List F}
    (hquery : query.length = ix.dims) (episodes : Bool) (g : Gate F) :
    (semantic sel ix query episodes g = none ↔
      ∀ entry ∈ ix.entries, takesPart episodes entry = false) ∧
    ∀ found, semantic sel ix query episodes g = some found →
      (scores ix query episodes).head? = some found.score ∧
      (∃ r ∈ ix.rows, takesPart episodes r.1 = true ∧ r.1.id = found.id ∧
        dot r.2 query = found.score) ∧
      found.margin = found.score - restMean (scores ix query episodes) ∧
      (found.accepted = true ↔
        g.minScore ≤ found.score ∧ g.minMargin ≤ found.margin) := by
  have hscores := map_score_works sel hwell hdims hquery episodes
  have hroom : marginTo ≠ 0 := Nat.succ_ne_zero 24
  rw [semantic, gate]
  constructor
  · rw [Option.map_eq_none_iff, List.head?_eq_none_iff,
      ← scores_eq_nil_iff ix query, ← @List.map_eq_nil_iff _ _ Prod.snd, hscores,
      List.take_eq_nil_iff]
    exact or_iff_right hroom
  · intro found hfound
    obtain ⟨best, hbest, rfl⟩ := Option.map_eq_some_iff.mp hfound
    obtain ⟨hpart, v, hrow, hscore⟩ :=
      mem_works sel hwell hdims hquery (List.mem_of_mem_head? hbest)
    refine ⟨?_, ⟨(best.1, v), hrow, hpart, rfl, hscore.symm⟩, ?_, ?_⟩
    · have hhead := congrArg List.head? hscores
      rw [List.head?_map, hbest, List.head?_take, if_neg hroom] at hhead
      exact hhead.symm
    · show best.2 - mean _ = best.2 - _
      rw [List.map_drop, hscores, mean_drop_take]
    · rw [Bool.and_eq_true, decide_eq_true_iff, decide_eq_true_iff]

end Exact

theorem semantic_uses_ranking_of_two :
    (semantic (sorting (byScore ℚ))
      (((Index.new 2 : Index ℚ).upsert
        ⟨"m1", .movie, "Dune", none, none, 1⟩ [0, 1]).2.upsert
        ⟨"m2", .movie, "Office Space", none, none, 2⟩ [1, 0]).2
      [1, 0] false ⟨0.62, 0.05⟩ ≠ none) ∧
    semantic (sorting (byScore ℚ))
      (((Index.new 2 : Index ℚ).upsert
        ⟨"m1", .movie, "Dune", none, none, 1⟩ [0, 1]).2.upsert
        ⟨"m2", .movie, "Office Space", none, none, 2⟩ [1, 0]).2
      [1, 0] true ⟨0.62, 0.05⟩ = none := by
  have hwell := wellFormed_upsert (wellFormed_upsert
    (wellFormed_new (F := ℚ) 2) ⟨"m1", .movie, "Dune", none, none, 1⟩ [0, 1])
    ⟨"m2", .movie, "Office Space", none, none, 2⟩ [1, 0]
  constructor
  · intro hnone
    have hall := (semantic_uses_ranking _ hwell (by decide) (by rfl) false
      _).1.mp hnone
    exact absurd (hall _ List.mem_cons_self) (by decide)
  · refine (semantic_uses_ranking _ hwell (by decide) (by rfl) true _).1.mpr ?_
    show ∀ entry ∈ [_, _], takesPart true entry = false
    decide

end AssistantHub.SemanticGate
