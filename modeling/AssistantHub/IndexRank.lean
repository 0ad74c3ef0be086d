import AssistantHub.Chunks
import AssistantHub.F32Bytes
import AssistantHub.IndexStore
import AssistantHub.TopSelection
import Mathlib.Data.Int.ConditionallyCompleteOrder
import Mathlib.Order.Compare

namespace AssistantHub.IndexRank

open Chunks F32Bytes FlatRows IndexStore TopSelection

/-- A ranked match of a query. -/
structure Hit (F : Type) where
  entry : Entry
  score : F

/-- A type of scores with the total order that they are sorted by. -/
class TotalCmp (F : Type) where
  totalCmp : F → F → Ordering
  trans : Std.TransCmp totalCmp

instance : TotalCmp F32 := ⟨F32.totalCmp, inferInstance⟩

/-- Exact numbers are sorted by their value. -/
instance {F : Type} [LinearOrder F] : TotalCmp F := ⟨compare, inferInstance⟩

theorem isLE_totalCmp_iff {F : Type} [LinearOrder F] {x y : F} :
    (TotalCmp.totalCmp x y).isLE = true ↔ x ≤ y :=
  Ordering.isLE_iff_ne_gt.trans compare_le_iff_le

/-- The comparison `by_score` of two scores with their positions. -/
def byScore (F : Type) [TotalCmp F] (a b : F × Nat) : Ordering :=
  TotalCmp.totalCmp b.1 a.1

instance {F : Type} [TotalCmp F] : Std.TransCmp (byScore F) where
  eq_swap := (@TotalCmp.trans F _).eq_swap
  isLE_trans hab hbc := (@TotalCmp.trans F _).isLE_trans hbc hab

section Ranked

variable {F : Type} [TotalCmp F]

/-- The hits are the first ones of all that pass: what is left out is not more
similar than any of them. -/
structure Ranked (hits all rest : List (Hit F)) (limit : Nat) : Prop where
  perm : (hits ++ rest).Perm all
  length_eq : hits.length = min limit all.length
  sorted : hits.Pairwise fun x y =>
    (TotalCmp.totalCmp y.score x.score).isLE = true
  best : ∀ x ∈ hits, ∀ y ∈ rest,
    (TotalCmp.totalCmp y.score x.score).isLE = true

namespace Ranked

variable {hits all rest : List (Hit F)} {limit : Nat}

theorem mem_all (h : Ranked hits all rest limit) {hit : Hit F}
    (hmem : hit ∈ hits) : hit ∈ all :=
  h.perm.mem_iff.mp (List.mem_append_left rest hmem)

theorem nodup_ids (h : Ranked hits all rest limit)
    (hnodup : (all.map fun hit => hit.entry.id).Nodup) :
    (hits.map fun hit => hit.entry.id).Nodup := by
  have hboth := ((h.perm.map fun hit => hit.entry.id).nodup_iff).mpr hnodup
  rw [List.map_append] at hboth
  exact hboth.sublist (List.sublist_append_left _ _)

end Ranked

end Ranked

section Rank

variable {F : Type}

def toHit (ix : Index F) (p : F × Nat) : Option (Hit F) :=
  ix.entries[p.2]?.map fun entry => { entry := entry, score := p.1 }

theorem chunksExact_vectors {ix : Index F} (hwell : ix.WellFormed)
    (hdims : 0 < ix.dims) :
    chunksExact ix.dims ix.vectors = ix.rows.map Prod.snd := by
  rw [hwell.spells.vectors_eq]
  refine chunksExact_flatten hdims fun v hv => ?_
  obtain ⟨r, hr, rfl⟩ := List.mem_map.mp hv
  exact hwell.spells.length_eq r hr

theorem toHit_of_mem_zipIdx {ix : Index F} {p : (Entry × List F) × Nat}
    (hp : p ∈ ix.rows.zipIdx) (score : F) :
    toHit ix (score, p.2) = some { entry := p.1.1, score := score } := by
  have hrow := List.mem_zipIdx_iff_getElem?.mp hp
  rw [toHit, ← map_fst_rows ix, List.getElem?_map, hrow]
  rfl

theorem length_filterMap_toHit {ix : Index F} {l : List (F × Nat)}
    (h : ∀ p ∈ l, (toHit ix p).isSome = true) :
    (l.filterMap (toHit ix)).length = l.length := by
  rw [List.length_filterMap_eq_countP, List.countP_eq_length]
  exact h

theorem score_of_toHit {ix : Index F} {p : F × Nat} {hit : Hit F}
    (h : toHit ix p = some hit) : hit.score = p.1 := by
  obtain ⟨entry, -, rfl⟩ := Option.map_eq_some_iff.mp h
  rfl

variable [Zero F] [Add F] [Mul F]

/-- Dot product of two normalized vectors (cosine similarity). -/
def dot (a b : List F) : F :=
  ((a.zip b).map fun p => p.1 * p.2).foldl (fun sum x => sum + x) 0

/-- The position of each entry that passes `keep` with its score. The source
indexes `entries` with the positions and panics out of range, which
`WellFormed` rules out, and it panics for rows of no values. -/
def scored (ix : Index F) (query : List F) (keep : Entry → Bool) :
    List (F × Nat) :=
  ((chunksExact ix.dims ix.vectors).map fun v =>
    dot v query).zipIdx.filter fun p => ix.entries[p.2]?.any keep

/-- All entries that pass `keep`, each with the similarity of its own row. -/
def passing (ix : Index F) (query : List F) (keep : Entry → Bool) :
    List (Hit F) :=
  (ix.rows.filter fun r => keep r.1).map fun r =>
    { entry := r.1, score := dot r.2 query }

theorem scored_eq {ix : Index F} (hwell : ix.WellFormed) (hdims : 0 < ix.dims)
    (query : List F) (keep : Entry → Bool) :
    scored ix query keep =
      (ix.rows.zipIdx.filter fun p => keep p.1.1).map fun p =>
        (dot p.1.2 query, p.2) := by
  rw [scored, chunksExact_vectors hwell hdims, List.map_map, List.zipIdx_map,
    List.filter_map]
  refine congrArg _ (List.filter_congr fun p hp => ?_)
  have hrow := List.mem_zipIdx_iff_getElem?.mp hp
  show (ix.entries[p.2]?.any keep) = keep p.1.1
  rw [← map_fst_rows ix, List.getElem?_map, hrow]
  rfl

theorem filterMap_scored {ix : Index F} (hwell : ix.WellFormed)
    (hdims : 0 < ix.dims) (query : List F) (keep : Entry → Bool) :
    (scored ix query keep).filterMap (toHit ix) = passing ix query keep := by
  rw [scored_eq hwell hdims, passing, List.filterMap_map]
  have hsome : (ix.rows.zipIdx.filter fun p => keep p.1.1).filterMap
        (toHit ix ∘ fun p => (dot p.1.2 query, p.2)) =
      (ix.rows.zipIdx.filter fun p => keep p.1.1).filterMap
        (fun p => some { entry := p.1.1, score := dot p.1.2 query }) := by
    refine List.filterMap_congr fun p hp => ?_
    exact toHit_of_mem_zipIdx (List.mem_of_mem_filter hp) _
  conv_rhs => rw [← List.zipIdx_map_fst 0 ix.rows, List.filter_map, List.map_map]
  rw [hsome, List.filterMap_eq_map']
  rfl

theorem isSome_toHit_of_mem_scored {ix : Index F} (hwell : ix.WellFormed)
    (hdims : 0 < ix.dims) {query : List F} {keep : Entry → Bool} {p : F × Nat}
    (hp : p ∈ scored ix query keep) : (toHit ix p).isSome = true := by
  rw [scored_eq hwell hdims] at hp
  obtain ⟨q, hq, rfl⟩ := List.mem_map.mp hp
  rw [toHit_of_mem_zipIdx (List.mem_of_mem_filter hq)]
  rfl

theorem length_passing {ix : Index F} (hwell : ix.WellFormed)
    (hdims : 0 < ix.dims) (query : List F) (keep : Entry → Bool) :
    (passing ix query keep).length = (scored ix query keep).length := by
  rw [← filterMap_scored hwell hdims]
  exact length_filterMap_toHit fun p hp =>
    isSome_toHit_of_mem_scored hwell hdims hp

theorem map_entry_passing (ix : Index F) (query : List F)
    (keep : Entry → Bool) :
    (passing ix query keep).map Hit.entry = ix.entries.filter keep := by
  rw [passing, List.map_map, ← map_fst_rows ix, List.filter_map]
  rfl

theorem mem_passing {ix : Index F} {query : List F} {keep : Entry → Bool}
    {hit : Hit F} (h : hit ∈ passing ix query keep) :
    keep hit.entry = true ∧
      ∃ v, (hit.entry, v) ∈ ix.rows ∧ hit.score = dot v query := by
  obtain ⟨r, hr, rfl⟩ := List.mem_map.mp h
  exact ⟨(List.mem_filter.mp hr).2, r.2, (List.mem_filter.mp hr).1, rfl⟩

theorem nodup_ids_passing {ix : Index F} (hwell : ix.WellFormed)
    (query : List F) (keep : Entry → Bool) :
    ((passing ix query keep).map fun hit => hit.entry.id).Nodup := by
  have hids : (passing ix query keep).map (fun hit => hit.entry.id) =
      (ix.entries.filter keep).map Entry.id := by
    rw [← map_entry_passing ix query keep, List.map_map]
    rfl
  rw [hids]
  exact hwell.ids_nodup.sublist (List.filter_sublist.map Entry.id)

variable [TotalCmp F]

/-- The `limit` entries most similar to `query` (a normalized vector) that pass
`keep`, best first. -/
def Index.rank (sel : Selection (byScore F)) (ix : Index F) (query : List F)
    (limit : Nat) (keep : Entry → Bool) : List (Hit F) :=
  if query.length ≠ ix.dims ∨ limit = 0 then []
  else
    let all := scored ix query keep
    let front :=
      if limit < all.length then (sel.run (limit - 1) all).take limit else all
    (front.mergeSort fun a b => (byScore F a b).isLE).filterMap (toHit ix)

theorem rank_eq_top (sel : Selection (byScore F)) {ix : Index F}
    {query : List F} (hquery : query.length = ix.dims) {limit : Nat}
    (hlimit : 0 < limit) (keep : Entry → Bool) :
    Index.rank sel ix query limit keep =
      (top sel limit (scored ix query keep)).filterMap (toHit ix) := by
  rw [Index.rank, if_neg (by omega)]
  rfl

theorem rank_spec (sel : Selection (byScore F)) {ix : Index F}
    (hwell : ix.WellFormed) (hdims : 0 < ix.dims) {query : List F}
    (hquery : query.length = ix.dims) (limit : Nat) (keep : Entry → Bool) :
    ∃ rest, Ranked (Index.rank sel ix query limit keep)
      (passing ix query keep) rest limit := by
  rcases Nat.eq_zero_or_pos limit with rfl | hlimit
  · refine ⟨passing ix query keep, ?_⟩
    rw [Index.rank, if_pos (Or.inr rfl)]
    exact
      { perm := List.Perm.refl _
        length_eq := (Nat.zero_min _).symm
        sorted := List.Pairwise.nil
        best := fun x hx => absurd hx List.not_mem_nil }
  · obtain ⟨rest, hperm, hbest⟩ := top_spec sel hlimit (scored ix query keep)
    have hsome : ∀ p ∈ top sel limit (scored ix query keep),
        (toHit ix p).isSome = true := fun p hp =>
      isSome_toHit_of_mem_scored hwell hdims
        (hperm.mem_iff.mp (List.mem_append_left rest hp))
    refine ⟨rest.filterMap (toHit ix), ?_⟩
    rw [rank_eq_top sel hquery hlimit]
    refine { perm := ?_, length_eq := ?_, sorted := ?_, best := ?_ }
    · rw [← List.filterMap_append, ← filterMap_scored hwell hdims]
      exact hperm.filterMap _
    · rw [length_filterMap_toHit hsome, length_top, length_passing hwell hdims]
    · rw [List.pairwise_filterMap]
      refine (pairwise_top sel limit _).imp fun hpq x hx y hy => ?_
      rw [score_of_toHit hx, score_of_toHit hy]
      exact hpq
    · intro x hx y hy
      obtain ⟨p, hp, hx⟩ := List.mem_filterMap.mp hx
      obtain ⟨q, hq, hy⟩ := List.mem_filterMap.mp hy
      rw [score_of_toHit hx, score_of_toHit hy]
      exact hbest p hp q hq

/-- `rank` returns the entries that a sort of all that pass would put first. -/
theorem rank_is_top (sel : Selection (byScore F)) {ix : Index F}
    (hwell : ix.WellFormed) (hdims : 0 < ix.dims) {query : List F}
    (hquery : query.length = ix.dims) (limit : Nat) (keep : Entry → Bool) :
    let hits := Index.rank sel ix query limit keep
    hits.length = min limit (ix.entries.filter keep).length ∧
      (hits.map fun hit => hit.entry.id).Nodup ∧
      (∀ hit ∈ hits, keep hit.entry = true ∧
        ∃ v, (hit.entry, v) ∈ ix.rows ∧ hit.score = dot v query) ∧
      hits.Pairwise (fun x y =>
        (TotalCmp.totalCmp y.score x.score).isLE = true) ∧
      ∀ r ∈ ix.rows, keep r.1 = true → (∀ hit ∈ hits, hit.entry ≠ r.1) →
        ∀ hit ∈ hits,
          (TotalCmp.totalCmp (dot r.2 query) hit.score).isLE = true := by
  intro hits
  obtain ⟨rest, hranked⟩ := rank_spec sel hwell hdims hquery limit keep
  refine ⟨?_, ?_, ?_, hranked.sorted, ?_⟩
  · rw [hranked.length_eq, ← map_entry_passing ix query keep, List.length_map]
  · exact hranked.nodup_ids (nodup_ids_passing hwell query keep)
  · intro hit hhit
    exact mem_passing (hranked.mem_all hhit)
  · intro r hr hkeep hout hit hhit
    have hall : ⟨r.1, dot r.2 query⟩ ∈ passing ix query keep :=
      List.mem_map_of_mem (List.mem_filter.mpr ⟨hr, hkeep⟩)
    rcases List.mem_append.mp (hranked.perm.mem_iff.mpr hall) with hin | hrest
    · exact absurd rfl (hout _ hin)
    · exact hranked.best hit hhit _ hrest

end Rank

/-- The better one of two films. -/
theorem rank_is_top_of_two :
    (Index.rank (sorting (byScore Int))
      (((Index.new 2 : Index Int).upsert
        ⟨"m1", .movie, "Dune", none, none, 1⟩ [0, 1]).2.upsert
        ⟨"m2", .movie, "Office Space", none, none, 2⟩ [1, 0]).2
      [1, 0] 1 fun _ => true).length = 1 :=
  (rank_is_top (sorting (byScore Int))
    (wellFormed_upsert (wellFormed_upsert (wellFormed_new 2) _ _) _ _)
    (by decide) (by rfl) 1 fun _ => true).1

end AssistantHub.IndexRank
