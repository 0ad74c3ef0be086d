import Mathlib.Data.List.DropRight

namespace AssistantHub.TrimmedEnds

variable {α : Type*}

/-- A list without the elements of a kind at its ends. -/
def trimEnds (p : α → Bool) (l : List α) : List α := (l.dropWhile p).rdropWhile p

variable {p : α → Bool} {l : List α}

theorem forall_head?_dropWhile (p : α → Bool) (l : List α) :
    ∀ c ∈ (l.dropWhile p).head?, p c = false := by
  intro c hc
  have hnot := List.head?_dropWhile_not p l
  rw [Option.mem_def.mp hc] at hnot
  exact hnot

theorem rdropWhile_append_of_all {core back : List α} (hback : ∀ c ∈ back, p c = true)
    (hlast : ∀ c ∈ core.getLast?, p c = false) : (core ++ back).rdropWhile p = core := by
  induction back using List.reverseRecOn with
  | nil =>
      rw [List.append_nil, List.rdropWhile_eq_self_iff]
      intro hne
      rw [hlast _ (List.getLast?_eq_some_getLast hne)]
      exact Bool.false_ne_true
  | append_singleton back c ih =>
      rw [← List.append_assoc, List.rdropWhile_concat_pos _ _ _
        (hback c (List.mem_append_right _ (List.mem_singleton_self c)))]
      exact ih fun d hd => hback d (List.mem_append_left _ hd)

/-- What is left is what stands between elements of the kind. -/
theorem trimEnds_append {front core back : List α} (hfront : ∀ c ∈ front, p c = true)
    (hback : ∀ c ∈ back, p c = true) (hhead : ∀ c ∈ core.head?, p c = false)
    (hlast : ∀ c ∈ core.getLast?, p c = false) :
    trimEnds p (front ++ (core ++ back)) = core := by
  rw [trimEnds, List.dropWhile_append_of_pos hfront]
  rcases core with _ | ⟨c, core⟩
  · have hnil : back.dropWhile p = [] := by
      rw [List.dropWhile_eq_nil_iff]
      exact hback
    rw [List.nil_append, hnil, List.rdropWhile_nil]
  · rw [List.cons_append, List.dropWhile_cons_of_neg, ← List.cons_append,
      rdropWhile_append_of_all hback hlast]
    rw [hhead c rfl]
    exact Bool.false_ne_true

theorem getLast?_trimEnds : ∀ c ∈ (trimEnds p l).getLast?, p c = false := by
  intro c hc
  obtain ⟨hne, rfl⟩ := List.mem_getLast?_eq_getLast hc
  rw [← Bool.not_eq_true]
  exact List.rdropWhile_last_not p _ hne

theorem head?_trimEnds : ∀ c ∈ (trimEnds p l).head?, p c = false := by
  intro c hc
  have hmem : c ∈ (l.dropWhile p).head? := by
    obtain ⟨rest, hrest⟩ := List.rdropWhile_prefix p (l.dropWhile p)
    rw [← hrest]
    exact List.mem_head?_append_of_mem_head? hc
  exact forall_head?_dropWhile p l c hmem

theorem exists_eq_trimEnds (p : α → Bool) (l : List α) :
    ∃ front back, l = front ++ (trimEnds p l ++ back) ∧
      (∀ c ∈ front, p c = true) ∧ ∀ c ∈ back, p c = true := by
  refine ⟨l.takeWhile p, (l.dropWhile p).rtakeWhile p, ?_, ?_, ?_⟩
  · rw [trimEnds, List.rdropWhile_append_rtakeWhile, List.takeWhile_append_dropWhile]
  · intro c hc
    exact List.mem_takeWhile_imp hc
  · intro c hc
    exact List.mem_rtakeWhile_imp hc

end AssistantHub.TrimmedEnds
