import AssistantHub.Runs

namespace AssistantHub.JoinedWords

open AssistantHub.Runs

variable {α : Type*} {sep : α → Bool} {blank : α} {l m : List α}

/-- Nonempty words without a separator. -/
def Words (sep : α → Bool) (ws : List (List α)) : Prop :=
  ∀ w ∈ ws, w ≠ [] ∧ ∀ c ∈ w, sep c = false

/-- Words with one blank between each two. -/
def Joined (sep : α → Bool) (blank : α) (l : List α) : Prop :=
  ∃ ws, Words sep ws ∧ l = [blank].intercalate ws

theorem words_runs (l : List α) : Words sep (runs sep l) := fun _ h => mem_runs h

theorem joined_runs (sep : α → Bool) (blank : α) (l : List α) :
    Joined sep blank ([blank].intercalate (runs sep l)) :=
  ⟨runs sep l, words_runs l, rfl⟩

theorem runs_intercalate (hblank : sep blank = true) {ws : List (List α)}
    (hws : Words sep ws) : runs sep ([blank].intercalate ws) = ws := by
  induction ws with
  | nil => rfl
  | cons w ws ih =>
      obtain ⟨hne, hw⟩ := hws w List.mem_cons_self
      rcases ws with _ | ⟨w', ws⟩
      · rw [List.intercalate_singleton]
        exact runs_eq_singleton hne hw
      · rw [List.intercalate_cons_cons, List.append_assoc, List.singleton_append,
          runs_append_cons hblank, runs_eq_singleton hne hw,
          ih fun v hv => hws v (List.mem_cons_of_mem w hv)]
        rfl

theorem Joined.intercalate_runs (h : Joined sep blank l) (hblank : sep blank = true) :
    [blank].intercalate (runs sep l) = l := by
  obtain ⟨ws, hws, rfl⟩ := h
  rw [runs_intercalate hblank hws]

theorem intercalate_concat (blank : α) {ws : List (List α)} (hne : ws ≠ [])
    (w : List α) :
    [blank].intercalate (ws ++ [w]) = [blank].intercalate ws ++ blank :: w := by
  induction ws with
  | nil => exact absurd rfl hne
  | cons v ws ih =>
      rcases ws with _ | ⟨v', ws⟩
      · simp
      · have htail := ih (List.cons_ne_nil v' ws)
        rw [List.cons_append, List.cons_append] at *
        rw [List.intercalate_cons_cons, htail, List.intercalate_cons_cons]
        simp

theorem joined_of_forall (h : ∀ c ∈ l, sep c = false) : Joined sep blank l := by
  rcases eq_or_ne l [] with rfl | hl
  · exact ⟨[], nofun, rfl⟩
  · refine ⟨[l], ?_, (List.intercalate_singleton).symm⟩
    intro w hw
    rw [List.mem_singleton.mp hw]
    exact ⟨hl, h⟩

theorem Joined.sep_eq (h : Joined sep blank l) {c : α} (hc : c ∈ l) (hsep : sep c = true) :
    c = blank := by
  obtain ⟨ws, hws, rfl⟩ := h
  induction ws with
  | nil => exact absurd hc List.not_mem_nil
  | cons w ws ih =>
      have hw : c ∉ w := by
        intro hmem
        rw [(hws w List.mem_cons_self).2 c hmem] at hsep
        cases hsep
      rcases ws with _ | ⟨w', ws⟩
      · rw [List.intercalate_singleton] at hc
        exact absurd hc hw
      · rw [List.intercalate_cons_cons, List.mem_append, List.mem_append] at hc
        rcases hc with (hc | hc) | hc
        · exact absurd hc hw
        · exact List.mem_singleton.mp hc
        · exact ih (fun v hv => hws v (List.mem_cons_of_mem w hv)) hc

theorem Joined.concat (h : Joined sep blank l) {c : α} (hc : sep c = false) :
    Joined sep blank (l ++ [c]) := by
  obtain ⟨ws, hws, rfl⟩ := h
  rcases List.eq_nil_or_concat' ws with rfl | ⟨init, w, rfl⟩
  · refine joined_of_forall fun d hd => ?_
    rw [List.mem_singleton.mp hd]
    exact hc
  · obtain ⟨-, hw⟩ := hws w (List.mem_append_right _ (List.mem_singleton_self w))
    refine ⟨init ++ [w ++ [c]], ?_, ?_⟩
    · intro v hv
      rcases List.mem_append.mp hv with hv | hv
      · exact hws v (List.mem_append_left _ hv)
      · obtain rfl := List.mem_singleton.mp hv
        refine ⟨by simp, ?_⟩
        intro d hd
        rcases List.mem_append.mp hd with hd | hd
        · exact hw d hd
        · rw [List.mem_singleton.mp hd]
          exact hc
    · rcases eq_or_ne init [] with rfl | hinit
      · simp
      · rw [intercalate_concat blank hinit, intercalate_concat blank hinit]
        simp

theorem Joined.of_prefix (h : Joined sep blank l) (hm : m <+: l) (hfree : blank ∉ m) :
    Joined sep blank m := by
  refine joined_of_forall fun c hc => ?_
  rw [← Bool.not_eq_true]
  intro hsep
  rw [h.sep_eq (hm.subset hc) hsep] at hc
  exact hfree hc

/-- What stands before a blank of joined words. -/
theorem Joined.before [DecidableEq α] (h : Joined sep blank (l ++ blank :: m))
    (hblank : sep blank = true) : Joined sep blank l := by
  obtain ⟨ws, hws, heq⟩ := h
  have hmem : ∀ w ∈ ws, blank ∉ w := by
    intro w hw hb
    rw [(hws w hw).2 blank hb] at hblank
    cases hblank
  have hne : ws ≠ [] := by
    rintro rfl
    simp at heq
  have hsplit := List.splitOn_intercalate blank hmem hne
  rw [← heq, List.splitOn_eq_splitOnP,
    List.splitOnP_append_cons l m (by exact beq_self_eq_true blank)] at hsplit
  refine ⟨l.splitOn blank, ?_, (List.intercalate_splitOn blank).symm⟩
  intro w hw
  apply hws w
  rw [← hsplit]
  exact List.mem_append_left _ (by rwa [← List.splitOn_eq_splitOnP])

end AssistantHub.JoinedWords
