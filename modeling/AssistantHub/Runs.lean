import Mathlib.Data.List.Basic
import Mathlib.Data.List.Forall2

namespace AssistantHub.Runs

variable {α : Type*} {sep : α → Bool}

/-- The parts of a list between separators, without the empty ones. -/
def runs (sep : α → Bool) (l : List α) : List (List α) :=
  (l.splitOnP sep).filter fun run => !run.isEmpty

@[simp] theorem runs_nil : runs sep ([] : List α) = [] := rfl

theorem runs_append_cons {c : α} (hc : sep c = true) (l m : List α) :
    runs sep (l ++ c :: m) = runs sep l ++ runs sep m := by
  rw [runs, List.splitOnP_append_cons l m hc, List.filter_append]
  rfl

theorem runs_eq_singleton {l : List α} (hl : l ≠ [])
    (h : ∀ c ∈ l, sep c = false) : runs sep l = [l] := by
  rw [runs, List.splitOnP_eq_singleton h, List.filter_cons_of_pos]
  · rfl
  · rw [Bool.not_eq_true', List.isEmpty_eq_false_iff]
    exact hl

/-- A list holds no separator, or one that others without any come before. -/
theorem no_sep_or_first (sep : α → Bool) (l : List α) :
    (∀ c ∈ l, sep c = false) ∨
      ∃ m c rest, l = m ++ c :: rest ∧ (∀ x ∈ m, sep x = false) ∧
        sep c = true := by
  induction l with
  | nil => exact Or.inl nofun
  | cons x l ih =>
      rcases hx : sep x with _ | _
      · rcases ih with hnone | ⟨m, c, rest, rfl, hm, hc⟩
        · exact Or.inl (List.forall_mem_cons.mpr ⟨hx, hnone⟩)
        · exact Or.inr ⟨x :: m, c, rest, rfl,
            List.forall_mem_cons.mpr ⟨hx, hm⟩, hc⟩
      · exact Or.inr ⟨[], x, l, rfl, nofun, hx⟩

/-- What a function does with the two sides of any separator, it does with all
runs one after the other. -/
theorem eq_flatMap_runs {β : Type*} (f : List α → List β) (hnil : f [] = [])
    (hsplit : ∀ l c m, sep c = true → f (l ++ c :: m) = f l ++ f m)
    (l : List α) : f l = (runs sep l).flatMap f := by
  induction hlength : l.length using Nat.strongRecOn generalizing l with
  | ind length ih =>
      rcases no_sep_or_first sep l with hnone | ⟨m, c, rest, rfl, hm, hc⟩
      · rcases eq_or_ne l [] with rfl | hl
        · exact hnil
        · rw [runs_eq_singleton hl hnone, List.flatMap_singleton]
      · rw [List.length_append, List.length_cons] at hlength
        rw [hsplit m c rest hc, runs_append_cons hc, List.flatMap_append,
          ← ih m.length (by omega) m rfl, ← ih rest.length (by omega) rest rfl]

theorem mem_runs {l run : List α} (h : run ∈ runs sep l) :
    run ≠ [] ∧ ∀ c ∈ run, sep c = false := by
  induction hlength : l.length using Nat.strongRecOn generalizing l with
  | ind length ih =>
      rcases no_sep_or_first sep l with hnone | ⟨m, c, rest, rfl, hm, hc⟩
      · rcases eq_or_ne l [] with rfl | hl
        · exact absurd h List.not_mem_nil
        · rw [runs_eq_singleton hl hnone, List.mem_singleton] at h
          rw [h]
          exact ⟨hl, hnone⟩
      · rw [List.length_append, List.length_cons] at hlength
        rw [runs_append_cons hc, List.mem_append] at h
        rcases h with h | h
        · exact ih m.length (by omega) h rfl
        · exact ih rest.length (by omega) h rfl

/-- The runs hold all that is no separator, in order. -/
theorem flatten_runs (l : List α) :
    (runs sep l).flatten = l.filter fun c => !sep c := by
  have hsplit : ∀ l c m, sep c = true →
      (l ++ c :: m).filter (fun c => !sep c) =
        l.filter (fun c => !sep c) ++ m.filter fun c => !sep c := by
    intro l c m hc
    rw [List.filter_append, List.filter_cons_of_neg]
    rw [hc]
    exact Bool.false_ne_true
  have hself : (runs sep l).map (fun run => run.filter fun c => !sep c) =
      runs sep l := by
    refine (List.map_congr_left fun run hrun => ?_).trans (List.map_id _)
    refine List.filter_eq_self.mpr fun c hc => ?_
    rw [(mem_runs hrun).2 c hc]
    rfl
  rw [eq_flatMap_runs (fun m => m.filter fun c => !sep c) rfl hsplit l,
    List.flatMap_def, hself]

theorem mem_flatten_runs_iff {l : List α} {c : α} :
    c ∈ (runs sep l).flatten ↔ c ∈ l ∧ sep c = false := by
  rw [flatten_runs, List.mem_filter, Bool.not_eq_true']

theorem runs_ne_nil {l : List α} {c : α} (hc : c ∈ l) (hsep : sep c = false) :
    runs sep l ≠ [] := by
  intro hnil
  have hmem := mem_flatten_runs_iff.mpr ⟨hc, hsep⟩
  rw [hnil] at hmem
  exact List.not_mem_nil hmem

theorem exists_mem_of_forall₂ {R : α → α → Prop} {l l' : List α}
    (h : List.Forall₂ R l l') {a : α} (ha : a ∈ l) : ∃ b ∈ l', R a b := by
  induction h with
  | nil => exact absurd ha List.not_mem_nil
  | cons hfirst _ ih =>
      rcases List.mem_cons.mp ha with rfl | ha
      · exact ⟨_, List.mem_cons_self, hfirst⟩
      · obtain ⟨b, hb, hab⟩ := ih ha
        exact ⟨b, List.mem_cons_of_mem _ hb, hab⟩

theorem forall₂_splitOnP {R : α → α → Prop} (hR : ∀ a b, R a b → sep a = sep b)
    {l l' : List α} (h : List.Forall₂ R l l') :
    List.Forall₂ (List.Forall₂ R) (l.splitOnP sep) (l'.splitOnP sep) := by
  induction h with
  | nil => exact .cons .nil .nil
  | @cons a b m m' hab _ ih =>
      rw [List.splitOnP_cons_eq_if_modifyHead, List.splitOnP_cons_eq_if_modifyHead,
        hR a b hab]
      split
      · exact .cons .nil ih
      · generalize m.splitOnP sep = parts, m'.splitOnP sep = parts' at ih ⊢
        rcases ih with _ | ⟨hfirst, hrest⟩
        · exact .nil
        · exact .cons (.cons hab hfirst) hrest

/-- Lists with separators in the same places have runs in the same places. -/
theorem forall₂_runs {R : α → α → Prop} (hR : ∀ a b, R a b → sep a = sep b)
    {l l' : List α} (h : List.Forall₂ R l l') :
    List.Forall₂ (List.Forall₂ R) (runs sep l) (runs sep l') := by
  apply List.rel_filter _ (forall₂_splitOnP hR h)
  intro run run' hrun
  rcases hrun with _ | _
  · rfl
  · rfl

theorem not_mem_intercalate {c : α} {separator : List α} {ls : List (List α)}
    (hseparator : c ∉ separator) (hls : ∀ l ∈ ls, c ∉ l) : c ∉ separator.intercalate ls := by
  induction ls with
  | nil => exact List.not_mem_nil
  | cons l ls ih =>
      rw [List.forall_mem_cons] at hls
      rcases ls with _ | ⟨l', ls⟩
      · rw [List.intercalate_singleton]
        exact hls.1
      · rw [List.intercalate_cons_cons, List.mem_append, List.mem_append, not_or, not_or]
        exact ⟨⟨hls.1, hseparator⟩, ih hls.2⟩

theorem mem_intercalate {c : α} {l : List α} {ls : List (List α)} (hc : c ∈ l)
    (hl : l ∈ ls) (separator : List α) : c ∈ separator.intercalate ls := by
  induction ls with
  | nil => exact absurd hl List.not_mem_nil
  | cons l' ls ih =>
      rcases ls with _ | ⟨l'', ls⟩
      · rw [List.mem_singleton] at hl
        rwa [List.intercalate_singleton, ← hl]
      · rw [List.intercalate_cons_cons, List.mem_append, List.mem_append]
        rcases List.mem_cons.mp hl with rfl | hl
        · exact Or.inl (Or.inl hc)
        · exact Or.inr (ih hl)

theorem not_mem_of_mem_splitOn [BEq α] [LawfulBEq α] {a : α} {l part : List α}
    (h : part ∈ l.splitOn a) : a ∉ part := by
  rw [List.splitOn_eq_splitOnP] at h
  rcases part with _ | ⟨c, part⟩
  · exact List.not_mem_nil
  · have hrun : c :: part ∈ runs (· == a) l := List.mem_filter.mpr ⟨h, rfl⟩
    intro ha
    exact absurd ((mem_runs hrun).2 a ha) (by simp)

end AssistantHub.Runs
