import Mathlib.Data.List.DropRight

namespace AssistantHub.Streaks

variable {α : Type*} (p : α → Bool)

/-- How many elements at the end of the list satisfy `p` in a row. -/
def streak (l : List α) : Nat := (l.rtakeWhile p).length

/-- Somewhere in the list `n` neighbours satisfy `p`. -/
def HasStreak (n : Nat) (l : List α) : Prop :=
  ∃ m, m <:+: l ∧ m.length = n ∧ ∀ x ∈ m, p x = true

theorem streak_concat (l : List α) (x : α) :
    streak p (l ++ [x]) = if p x = true then streak p l + 1 else 0 := by
  rw [streak, List.rtakeWhile_concat]
  split
  · rw [List.length_append, List.length_singleton, streak]
  · rfl

theorem le_streak_iff {l : List α} {n : Nat} :
    n ≤ streak p l ↔ ∃ m, m <:+ l ∧ m.length = n ∧ ∀ x ∈ m, p x = true := by
  constructor
  · intro hn
    refine ⟨(l.rtakeWhile p).drop (streak p l - n), ?_, ?_, ?_⟩
    · exact (List.drop_suffix _ _).trans (List.rtakeWhile_suffix p l)
    · rw [List.length_drop, ← streak]
      omega
    · intro x hx
      exact List.mem_rtakeWhile_imp (List.mem_of_mem_drop hx)
  · rintro ⟨m, ⟨rest, rfl⟩, rfl, hall⟩
    have hreverse : ∀ x ∈ m.reverse, p x = true := by
      intro x hx
      exact hall x (List.mem_reverse.mp hx)
    rw [streak, List.rtakeWhile, List.reverse_append,
      List.takeWhile_append_of_pos hreverse, List.length_reverse,
      List.length_append, List.length_reverse]
    exact Nat.le_add_right _ _

theorem le_streak_range_iff (p : Nat → Bool) (n count : Nat) :
    count ≤ streak p (List.range n) ↔
      count ≤ n ∧ ∀ i, n - count ≤ i → i < n → p i = true := by
  induction n generalizing count with
  | zero =>
      constructor
      · intro h
        exact ⟨h, fun i _ hi => absurd hi (Nat.not_lt_zero i)⟩
      · rintro ⟨h, -⟩
        exact h.trans (Nat.zero_le _)
  | succ n ih =>
      rw [List.range_succ, streak_concat]
      split
      · rename_i hn
        cases count with
        | zero =>
            refine iff_of_true (Nat.zero_le _) ⟨Nat.zero_le _, ?_⟩
            intro i hfirst hi
            omega
        | succ count =>
            rw [Nat.succ_le_succ_iff, Nat.succ_le_succ_iff, ih,
              Nat.succ_sub_succ]
            refine and_congr_right fun _ => forall_congr' fun i => ?_
            constructor
            · intro h hfirst hi
              rcases Nat.lt_succ_iff_lt_or_eq.mp hi with hlt | rfl
              · exact h hfirst hlt
              · exact hn
            · intro h hfirst hi
              exact h hfirst (Nat.lt_succ_of_lt hi)
      · rename_i hn
        rw [Nat.le_zero]
        constructor
        · rintro rfl
          refine ⟨Nat.zero_le _, fun i hfirst hi => ?_⟩
          omega
        · rintro ⟨hcount, hall⟩
          by_contra hne
          exact hn (hall n (by omega) (Nat.lt_succ_self n))

theorem not_hasStreak_nil (n : Nat) : ¬HasStreak p (n + 1) [] := by
  rintro ⟨m, hm, hlength, -⟩
  rw [List.infix_nil.mp hm] at hlength
  cases hlength

theorem hasStreak_concat (n : Nat) (l : List α) (x : α) :
    HasStreak p n (l ++ [x]) ↔
      HasStreak p n l ∨ n ≤ streak p (l ++ [x]) := by
  rw [le_streak_iff]
  constructor
  · rintro ⟨m, hm, hlength, hall⟩
    rcases List.infix_concat_iff.mp hm with hsuffix | hinside
    · exact Or.inr ⟨m, hsuffix, hlength, hall⟩
    · exact Or.inl ⟨m, hinside, hlength, hall⟩
  · rintro (⟨m, hm, hlength, hall⟩ | ⟨m, hm, hlength, hall⟩)
    · exact ⟨m, List.infix_concat_iff.mpr (Or.inr hm), hlength, hall⟩
    · exact ⟨m, hm.isInfix, hlength, hall⟩

/-- Two elements with `p` and none without it between them are a streak of two,
and the other way round. -/
theorem hasStreak_two_iff (l : List α) :
    HasStreak p 2 l ↔
      ∃ before first between second rest,
        l = before ++ first :: (between ++ second :: rest) ∧
          p first = true ∧ p second = true ∧
            ∀ x ∈ between, p x = true := by
  constructor
  · rintro ⟨m, ⟨before, rest, rfl⟩, hlength, hall⟩
    obtain ⟨first, second, rfl⟩ := List.length_eq_two.mp hlength
    refine ⟨before, first, [], second, rest, by simp, ?_, ?_, nofun⟩
    · exact hall first (by simp)
    · exact hall second (by simp)
  · rintro ⟨before, first, between, second, rest, rfl, hfirst, hsecond, hall⟩
    cases between with
    | nil =>
        refine ⟨[first, second], ⟨before, rest, by simp⟩, rfl, ?_⟩
        simp [hfirst, hsecond]
    | cons next between =>
        refine ⟨[first, next], ⟨before, between ++ second :: rest, by simp⟩,
          rfl, ?_⟩
        simp [hfirst, hall next]

theorem length_filter_le_one {l : List α}
    (h : l.Pairwise fun x y => p x = true → p y = false) :
    (l.filter p).length ≤ 1 := by
  induction l with
  | nil => exact Nat.zero_le 1
  | cons x l ih =>
      rw [List.pairwise_cons] at h
      rw [List.filter_cons]
      split
      · rename_i hx
        have hnil : l.filter p = [] := by
          rw [List.filter_eq_nil_iff]
          intro y hy
          rw [h.1 y hy hx]
          exact Bool.false_ne_true
        rw [hnil]
        exact Nat.le_refl 1
      · exact ih h.2

end AssistantHub.Streaks
