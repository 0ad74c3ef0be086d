import Mathlib.Data.List.DropRight

namespace AssistantHub.Streams

variable {α : Type*} {ends : α → Bool}

/-- The parts of a list up to and with each element that ends one, and what is left;
`part` holds what has been read before. -/
def splitAfter (ends : α → Bool) (part : List α) : List α → List (List α) × List α
  | [] => ([], part)
  | c :: l =>
      if ends c then
        let (parts, rest) := splitAfter ends [] l
        ((part ++ [c]) :: parts, rest)
      else splitAfter ends (part ++ [c]) l

theorem splitAfter_nil (part : List α) : splitAfter ends part [] = ([], part) := rfl

theorem splitAfter_cons_of_ends {c : α} (hc : ends c = true) (part l : List α) :
    splitAfter ends part (c :: l) =
      ((part ++ [c]) :: (splitAfter ends [] l).1, (splitAfter ends [] l).2) := if_pos hc

theorem splitAfter_cons_of_not {c : α} (hc : ends c = false) (part l : List α) :
    splitAfter ends part (c :: l) = splitAfter ends (part ++ [c]) l :=
  if_neg (by rw [hc]; exact Bool.false_ne_true)

/-- It makes no difference where a stream is cut. -/
theorem splitAfter_append (part l m : List α) :
    splitAfter ends part (l ++ m) =
      ((splitAfter ends part l).1 ++ (splitAfter ends (splitAfter ends part l).2 m).1,
        (splitAfter ends (splitAfter ends part l).2 m).2) := by
  induction l generalizing part with
  | nil => rfl
  | cons c l ih =>
      rw [List.cons_append]
      rcases hc : ends c with _ | _
      · rw [splitAfter_cons_of_not hc, splitAfter_cons_of_not hc, ih]
      · rw [splitAfter_cons_of_ends hc, splitAfter_cons_of_ends hc, ih]
        rfl

/-- The parts of a stream: each ends at its only end, and what is left has none. -/
structure HasParts (ends : α → Bool) (stream : List α) (parts : List (List α))
    (rest : List α) : Prop where
  flatten_append : parts.flatten ++ rest = stream
  ended : ∀ part ∈ parts, ∃ body c, part = body ++ [c] ∧
    (∀ x ∈ body, ends x = false) ∧ ends c = true
  open_rest : ∀ x ∈ rest, ends x = false

theorem hasParts_splitAfter {part : List α} (hpart : ∀ x ∈ part, ends x = false)
    (l : List α) :
    HasParts ends (part ++ l) (splitAfter ends part l).1 (splitAfter ends part l).2 := by
  induction l generalizing part with
  | nil => exact ⟨by simp [splitAfter_nil], by simp [splitAfter_nil], hpart⟩
  | cons c l ih =>
      rcases hc : ends c with _ | _
      · rw [splitAfter_cons_of_not hc, List.append_cons]
        apply ih
        simpa [or_imp, forall_and, hc] using hpart
      · obtain ⟨hflatten, hended, hrest⟩ := @ih [] (by simp)
        rw [splitAfter_cons_of_ends hc]
        refine ⟨?_, ?_, hrest⟩
        · simp only [List.flatten_cons, List.append_assoc, hflatten]
          simp
        · rintro p (_ | ⟨_, hp⟩)
          · exact ⟨part, c, rfl, hpart, hc⟩
          · exact hended p hp

/-- A queue of at most `n` elements that loses the oldest one. -/
def pushLast (n : Nat) (queue : List α) (x : α) : List α :=
  (if queue.length = n then queue.drop 1 else queue) ++ [x]

theorem length_rtake (n : Nat) (l : List α) : (l.rtake n).length = min n l.length := by
  rw [List.rtake, List.length_drop]
  omega

theorem rtake_concat (n : Nat) (l : List α) (x : α) :
    pushLast (n + 1) (l.rtake (n + 1)) x = (l ++ [x]).rtake (n + 1) := by
  rw [pushLast, List.rtake_concat_succ, length_rtake]
  split
  · rename_i hfull
    rw [List.rtake, List.rtake, List.drop_drop]
    congr 2
    omega
  · rename_i hroom
    rw [List.rtake, List.rtake]
    congr 2
    omega

end AssistantHub.Streams
