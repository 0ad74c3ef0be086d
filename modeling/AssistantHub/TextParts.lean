import AssistantHub.CachedModels
import AssistantHub.TrimmedEnds

namespace AssistantHub.TextParts

open AssistantHub.CachedModels
open AssistantHub.RustText
open AssistantHub.TrimmedEnds

theorem splitOnce_append {separator : Char} {before : List Char}
    (h : separator ∉ before) (after : List Char) :
    splitOnce separator (before ++ separator :: after) = some (before, after) := by
  induction before with
  | nil => exact if_pos rfl
  | cons c before ih =>
      rw [List.mem_cons, not_or] at h
      rw [List.cons_append, splitOnce, if_neg (Ne.symm h.1), ih h.2]
      rfl

theorem splitOnce_eq_some_iff {separator : Char} {l before after : List Char} :
    splitOnce separator l = some (before, after) ↔
      l = before ++ separator :: after ∧ separator ∉ before := by
  constructor
  · intro h
    induction l generalizing before with
    | nil => cases h
    | cons c l ih =>
        rw [splitOnce] at h
        split at h
        · rename_i hc
          obtain ⟨rfl, rfl⟩ := Prod.mk.inj (Option.some.inj h)
          exact ⟨by rw [hc]; rfl, List.not_mem_nil⟩
        · rename_i hc
          obtain ⟨⟨before', after'⟩, hrest, heq⟩ := Option.map_eq_some_iff.mp h
          obtain ⟨rfl, rfl⟩ := Prod.mk.inj heq
          obtain ⟨rfl, hnot⟩ := ih hrest
          refine ⟨rfl, ?_⟩
          rw [List.mem_cons, not_or]
          exact ⟨Ne.symm hc, hnot⟩
  · rintro ⟨rfl, hnot⟩
    exact splitOnce_append hnot after

theorem beforeLastSpace_append {front back : List Char} (hback : ' ' ∉ back) :
    beforeLastSpace (front ++ ' ' :: back) = some front := by
  have hdrop : (front ++ ' ' :: back).reverse.dropWhile (fun c => decide (c ≠ ' ')) =
      ' ' :: front.reverse := by
    rw [List.reverse_append, List.reverse_cons, List.append_assoc,
      List.dropWhile_append_of_pos]
    · rfl
    · intro c hc
      rw [decide_eq_true_eq]
      rintro rfl
      exact hback (List.mem_reverse.mp hc)
  rw [beforeLastSpace, hdrop]
  exact congrArg some (List.reverse_reverse front)

theorem beforeLastSpace_of_not_mem {l : List Char} (h : ' ' ∉ l) :
    beforeLastSpace l = none := by
  have hdrop : l.reverse.dropWhile (fun c => decide (c ≠ ' ')) = [] := by
    rw [List.dropWhile_eq_nil_iff]
    intro c hc
    rw [decide_eq_true_eq]
    rintro rfl
    exact h (List.mem_reverse.mp hc)
  rw [beforeLastSpace, hdrop]

variable {α : Type*} {p : α → Bool}

theorem rdropWhile_append_cons {c : α} (hc : p c = false) (l rest : List α) :
    (l ++ c :: rest).rdropWhile p = l ++ c :: rest.rdropWhile p := by
  induction rest using List.reverseRecOn with
  | nil =>
      rw [List.rdropWhile_nil, List.rdropWhile_concat_neg]
      rw [hc]
      exact Bool.false_ne_true
  | append_singleton rest d ih =>
      have hsplit : l ++ c :: (rest ++ [d]) = (l ++ c :: rest) ++ [d] := by simp
      rw [hsplit, List.rdropWhile_concat, List.rdropWhile_concat]
      split
      · exact ih
      · exact hsplit.symm

/-- Behind an element of another kind only the end is trimmed. -/
theorem trimEnds_append_cons {front core rest : List α} {c : α}
    (hfront : ∀ a ∈ front, p a = true) (hhead : ∀ a ∈ core.head?, p a = false)
    (hc : p c = false) :
    trimEnds p (front ++ (core ++ c :: rest)) = core ++ c :: rest.rdropWhile p := by
  have hdrop : (front ++ (core ++ c :: rest)).dropWhile p = core ++ c :: rest := by
    rw [List.dropWhile_append_of_pos hfront]
    rcases core with _ | ⟨d, core⟩
    · exact List.dropWhile_cons_of_neg (by rw [hc]; exact Bool.false_ne_true)
    · exact List.dropWhile_cons_of_neg (by rw [hhead d rfl]; exact Bool.false_ne_true)
  rw [trimEnds, hdrop, rdropWhile_append_cons hc]

/-- Trimming gives a core that has none of the elements at its ends just when the
list is that core between such elements. -/
theorem trimEnds_eq_iff {l core : List α} (hhead : ∀ c ∈ core.head?, p c = false)
    (hlast : ∀ c ∈ core.getLast?, p c = false) :
    trimEnds p l = core ↔
      ∃ front back, l = front ++ (core ++ back) ∧
        (∀ c ∈ front, p c = true) ∧ ∀ c ∈ back, p c = true := by
  constructor
  · rintro rfl
    exact exists_eq_trimEnds p l
  · rintro ⟨front, back, rfl, hfront, hback⟩
    exact trimEnds_append hfront hback hhead hlast

end AssistantHub.TextParts
