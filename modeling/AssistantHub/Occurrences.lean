import Mathlib.Data.List.Infix

namespace AssistantHub.Occurrences

variable {α : Type*} {find text before after : List α}

/-- A text that no end of is its beginning, so that no two occurrences overlap. -/
def Borderless (find : List α) : Prop :=
  ∀ k < find.length, 0 < k → ¬ find.drop k <+: find

theorem drop_append_append (i : Nat) :
    (before ++ (find ++ after)).drop (before.length + i) =
      find.drop i ++ after.drop (i - find.length) := by
  rw [List.drop_append, List.drop_append, List.drop_eq_nil_of_le (Nat.le_add_right _ _),
    Nat.add_sub_cancel_left, List.nil_append]

theorem occurs_behind (hborder : Borderless find) {i : Nat} (hi : 0 < i)
    (h : find <+: (before ++ (find ++ after)).drop (before.length + i)) :
    find <+: after.drop (i - find.length) := by
  rw [drop_append_append] at h
  rcases Nat.lt_or_ge i find.length with hlt | hge
  · refine absurd ?_ (hborder i hlt hi)
    exact List.prefix_of_prefix_length_le (List.prefix_append _ _) h
      (by rw [List.length_drop]; omega)
  · rwa [List.drop_eq_nil_of_le hge, List.nil_append] at h

section Found

variable [DecidableEq α]

instance : Decidable (Borderless find) :=
  inferInstanceAs (Decidable (∀ k < find.length, 0 < k → ¬ find.drop k <+: find))

/-- What stands before and behind the first occurrence. -/
def splitFirst (find : List α) : List α → Option (List α × List α)
  | [] => if find = [] then some ([], []) else none
  | c :: rest =>
      if find <+: c :: rest then some ([], (c :: rest).drop find.length)
      else (splitFirst find rest).map fun p => (c :: p.1, p.2)

theorem splitFirst_eq_none_iff (hne : find ≠ []) :
    splitFirst find text = none ↔ ∀ i, ¬ find <+: text.drop i := by
  induction text with
  | nil =>
      rw [splitFirst, if_neg hne]
      refine iff_of_true rfl fun i => ?_
      rw [List.drop_nil, List.prefix_nil]
      exact hne
  | cons c rest ih =>
      rw [splitFirst]
      split
      · rename_i hp
        exact iff_of_false (Option.some_ne_none _) fun h => h 0 hp
      · rename_i hp
        rw [Option.map_eq_none_iff, ih]
        constructor
        · intro h i
          rcases i with _ | i
          · exact hp
          · exact h i
        · intro h i
          exact h (i + 1)

theorem eq_of_splitFirst (hne : find ≠ []) (h : splitFirst find text = some (before, after)) :
    text = before ++ (find ++ after) ∧ ∀ i < before.length, ¬ find <+: text.drop i := by
  induction text generalizing before with
  | nil =>
      rw [splitFirst, if_neg hne] at h
      cases h
  | cons c rest ih =>
      rw [splitFirst] at h
      split at h
      · rename_i hp
        obtain ⟨t, ht⟩ := hp
        rw [← ht, List.drop_left] at h
        cases h
        refine ⟨ht.symm, fun i hi => ?_⟩
        exact absurd hi (Nat.not_lt_zero i)
      · rename_i hp
        obtain ⟨⟨b, a⟩, hrest, heq⟩ := Option.map_eq_some_iff.mp h
        cases heq
        obtain ⟨htext, hnone⟩ := ih hrest
        refine ⟨congrArg (c :: ·) htext, fun i hi => ?_⟩
        rcases i with _ | i
        · exact hp
        · exact hnone i (Nat.lt_of_succ_lt_succ hi)

/-- The occurrences from left to right that do not overlap. -/
def occurrences (find : List α) (text : List α) : Nat :=
  if hne : find = [] then text.length + 1
  else
    match h : splitFirst find text with
    | none => 0
    | some (_, after) => 1 + occurrences find after
termination_by text.length
decreasing_by
  rw [(eq_of_splitFirst hne h).1, List.length_append, List.length_append]
  have hpos := List.length_pos_of_ne_nil hne
  omega

theorem occurrences_of_none (hne : find ≠ []) (h : splitFirst find text = none) :
    occurrences find text = 0 := by
  rw [occurrences, dif_neg hne]
  split
  · rfl
  · rename_i hsome
    rw [h] at hsome
    cases hsome

theorem occurrences_of_some (hne : find ≠ [])
    (h : splitFirst find text = some (before, after)) :
    occurrences find text = 1 + occurrences find after := by
  rw [occurrences, dif_neg hne]
  split
  · rename_i hnone
    rw [h] at hnone
    cases hnone
  · rename_i hsome
    rw [h] at hsome
    cases hsome
    rfl

theorem occurrences_eq_zero_iff (hne : find ≠ []) :
    occurrences find text = 0 ↔ splitFirst find text = none := by
  rcases h : splitFirst find text with _ | ⟨before, after⟩
  · exact iff_of_true (occurrences_of_none hne h) rfl
  · rw [occurrences_of_some hne h]
    exact iff_of_false (by omega) (Option.some_ne_none _)

/-- A text is found once exactly when one place of it is an occurrence. -/
theorem occurrences_eq_one_iff (hne : find ≠ []) (hborder : Borderless find) :
    occurrences find text = 1 ↔
      ∃ before after, splitFirst find text = some (before, after) ∧
        ∀ i, find <+: text.drop i → i = before.length := by
  rcases h : splitFirst find text with _ | ⟨before, after⟩
  · rw [occurrences_of_none hne h]
    exact iff_of_false (by omega) (by rintro ⟨_, _, h, -⟩; cases h)
  · obtain ⟨htext, hnone⟩ := eq_of_splitFirst hne h
    rw [occurrences_of_some hne h, Nat.add_eq_left, occurrences_eq_zero_iff hne,
      splitFirst_eq_none_iff hne]
    constructor
    · intro hafter
      refine ⟨before, after, rfl, fun i hi => ?_⟩
      rcases Nat.lt_trichotomy i before.length with hlt | heq | hgt
      · exact absurd hi (hnone i hlt)
      · exact heq
      · obtain ⟨j, rfl⟩ := Nat.exists_eq_add_of_lt hgt
        rw [htext, Nat.add_assoc] at hi
        exact absurd (occurs_behind hborder (Nat.succ_pos j) hi) (hafter _)
    · rintro ⟨before', after', heq, honce⟩ i hi
      cases heq
      have hplace : find <+: text.drop (before.length + (find.length + i)) := by
        rw [htext, drop_append_append, List.drop_eq_nil_of_le (Nat.le_add_right _ _),
          Nat.add_sub_cancel_left]
        exact hi
      have hpos := List.length_pos_of_ne_nil hne
      have := honce _ hplace
      omega

theorem splitFirst_of_once (hne : find ≠ []) (htext : text = before ++ (find ++ after))
    (honce : ∀ i, find <+: text.drop i → i = before.length) :
    splitFirst find text = some (before, after) := by
  have hoccurs : find <+: text.drop before.length := by
    rw [htext, List.drop_left]
    exact List.prefix_append _ _
  rcases h : splitFirst find text with _ | ⟨b, a⟩
  · exact absurd hoccurs ((splitFirst_eq_none_iff hne).mp h _)
  · obtain ⟨hsplit, -⟩ := eq_of_splitFirst hne h
    have hb : b.length = before.length := by
      apply honce
      rw [hsplit, List.drop_left]
      exact List.prefix_append _ _
    obtain ⟨rfl, hrest⟩ := List.append_inj (hsplit.symm.trans htext) hb
    rw [List.append_cancel_left hrest]

end Found

end AssistantHub.Occurrences
