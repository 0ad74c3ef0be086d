import AssistantHub.Runs

namespace AssistantHub.RunMaps

open AssistantHub.Runs

variable {α : Type*} {sep : α → Bool} {f g : List α → List α}

/-- `run` holds the current run of the list. -/
def mapRunsFrom (sep : α → Bool) (f : List α → List α) (run : List α) : List α → List α
  | [] => f run
  | c :: l =>
      if sep c then f run ++ c :: mapRunsFrom sep f [] l
      else mapRunsFrom sep f (run ++ [c]) l

/-- A list with each run between separators changed. -/
def mapRuns (sep : α → Bool) (f : List α → List α) (l : List α) : List α :=
  mapRunsFrom sep f [] l

theorem mapRunsFrom_of_forall {l : List α} (h : ∀ c ∈ l, sep c = false) (run : List α) :
    mapRunsFrom sep f run l = f (run ++ l) := by
  induction l generalizing run with
  | nil => rw [List.append_nil, mapRunsFrom]
  | cons c l ih =>
      rw [List.forall_mem_cons] at h
      rw [mapRunsFrom, h.1, if_neg Bool.false_ne_true, ih h.2, List.append_assoc]
      rfl

theorem mapRunsFrom_append_cons {c : α} (hc : sep c = true) (l m run : List α) :
    mapRunsFrom sep f run (l ++ c :: m) = mapRunsFrom sep f run l ++ c :: mapRuns sep f m := by
  induction l generalizing run with
  | nil => exact if_pos hc
  | cons d l ih =>
      rw [List.cons_append, mapRunsFrom, mapRunsFrom]
      by_cases hd : sep d = true
      · rw [if_pos hd, if_pos hd, ih, List.append_assoc, List.cons_append]
      · rw [if_neg hd, if_neg hd, ih]

theorem mapRuns_of_forall {l : List α} (h : ∀ c ∈ l, sep c = false) :
    mapRuns sep f l = f l := mapRunsFrom_of_forall h []

theorem mapRuns_append_cons {c : α} (hc : sep c = true) (l m : List α) :
    mapRuns sep f (l ++ c :: m) = mapRuns sep f l ++ c :: mapRuns sep f m :=
  mapRunsFrom_append_cons hc l m []

/-- What changes the runs alone and keeps the separators is `mapRuns`. -/
theorem eq_mapRuns (hrun : ∀ l, (∀ c ∈ l, sep c = false) → g l = f l)
    (hsplit : ∀ l c m, sep c = true → g (l ++ c :: m) = g l ++ c :: g m) (l : List α) :
    g l = mapRuns sep f l := by
  induction hlength : l.length using Nat.strongRecOn generalizing l with
  | ind length ih =>
      rcases no_sep_or_first sep l with hnone | ⟨m, c, rest, rfl, hm, hc⟩
      · rw [hrun l hnone, mapRuns_of_forall hnone]
      · rw [List.length_append, List.length_cons] at hlength
        rw [hsplit m c rest hc, mapRuns_append_cons hc, ih m.length (by omega) m rfl,
          ih rest.length (by omega) rest rfl]

theorem mapRuns_eq_self {l : List α} (hnil : f [] = []) (h : ∀ run ∈ runs sep l, f run = run) :
    mapRuns sep f l = l := by
  induction hlength : l.length using Nat.strongRecOn generalizing l with
  | ind length ih =>
      rcases no_sep_or_first sep l with hnone | ⟨m, c, rest, rfl, hm, hc⟩
      · rw [mapRuns_of_forall hnone]
        rcases eq_or_ne l [] with rfl | hl
        · exact hnil
        · exact h l (by rw [runs_eq_singleton hl hnone]; exact List.mem_singleton_self l)
      · rw [List.length_append, List.length_cons] at hlength
        rw [runs_append_cons hc, List.forall_mem_append] at h
        rw [mapRuns_append_cons hc, ih m.length (by omega) h.1 rfl,
          ih rest.length (by omega) h.2 rfl]

theorem runs_mapRuns (hnil : f [] = [])
    (h : ∀ run, run ≠ [] → (∀ c ∈ run, sep c = false) →
      f run ≠ [] ∧ ∀ c ∈ f run, sep c = false) (l : List α) :
    runs sep (mapRuns sep f l) = (runs sep l).map f := by
  have hlift : ∀ l c m, sep c = true →
      runs sep (mapRuns sep f (l ++ c :: m)) =
        runs sep (mapRuns sep f l) ++ runs sep (mapRuns sep f m) := by
    intro l c m hc
    rw [mapRuns_append_cons hc, runs_append_cons hc]
  have hempty : mapRuns sep f [] = [] := hnil
  rw [eq_flatMap_runs (fun l => runs sep (mapRuns sep f l)) (by rw [hempty]; rfl) hlift l,
    List.map_eq_flatMap]
  refine List.flatMap_congr fun run hrun => ?_
  obtain ⟨hne, hfree⟩ := mem_runs hrun
  rw [mapRuns_of_forall hfree]
  exact runs_eq_singleton (h run hne hfree).1 (h run hne hfree).2

end AssistantHub.RunMaps
