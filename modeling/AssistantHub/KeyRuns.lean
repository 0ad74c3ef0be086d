import Mathlib.Data.List.SplitBy

namespace AssistantHub.KeyRuns

variable {κ β : Type*} [DecidableEq κ]

/-- Appends values to the last run if that has their key. Otherwise they begin
a new run. -/
def merge (runs : List (κ × List β)) (chunk : κ × List β) : List (κ × List β) :=
  match runs.getLast? with
  | some last =>
      if last.1 = chunk.1 then runs.dropLast ++ [(last.1, last.2 ++ chunk.2)]
      else runs ++ [chunk]
  | none => runs ++ [chunk]

def joined (chunks : List (κ × List β)) : Option (κ × List β) :=
  chunks.getLast?.map fun last => (last.1, chunks.flatMap Prod.snd)

/-- The maximal runs of chunks with equal keys, each with all its values. -/
def runs (chunks : List (κ × List β)) : List (κ × List β) :=
  (chunks.splitBy fun a b => a.1 = b.1).filterMap joined

theorem merge_concat (runs : List (κ × List β)) (last chunk : κ × List β) :
    merge (runs ++ [last]) chunk =
      if last.1 = chunk.1 then runs ++ [(last.1, last.2 ++ chunk.2)]
      else runs ++ [last] ++ [chunk] := by
  rw [merge, List.getLast?_concat, List.dropLast_concat]

theorem foldl_merge_loop (chunks : List (κ × List β)) (last : κ × List β)
    (group : List (κ × List β)) (groups : List (List (κ × List β))) :
    chunks.foldl merge (groups.reverse.filterMap joined ++
        [(last.1, (last :: group).reverse.flatMap Prod.snd)]) =
      (List.splitBy.loop (fun a b => decide (a.1 = b.1)) chunks last group
        groups).filterMap joined := by
  induction chunks generalizing last group groups with
  | nil =>
      simp [List.splitBy.loop, joined]
  | cons chunk chunks ih =>
      rw [List.foldl_cons, merge_concat, List.splitBy.loop]
      split
      · rename_i hkey
        simp only at hkey
        rw [decide_eq_true hkey]
        simp only
        rw [← ih, hkey]
        simp
      · rename_i hkey
        simp only at hkey
        rw [decide_eq_false hkey]
        simp only
        rw [← ih]
        simp [joined]

/-- Merging chunk after chunk makes the maximal runs. -/
theorem foldl_merge (chunks : List (κ × List β)) :
    chunks.foldl merge [] = runs chunks := by
  cases chunks with
  | nil => rfl
  | cons chunk chunks =>
      have h := foldl_merge_loop chunks chunk [] []
      simpa [merge, runs, List.splitBy] using h

theorem runs_concat (chunks : List (κ × List β)) (chunk : κ × List β) :
    runs (chunks ++ [chunk]) = merge (runs chunks) chunk := by
  rw [← foldl_merge, ← foldl_merge, List.foldl_append]
  rfl

theorem merge_cut (runs : List (κ × List β)) (k : κ) (first second : List β) :
    merge (merge runs (k, first)) (k, second) = merge runs (k, first ++ second) := by
  rcases List.eq_nil_or_concat runs with rfl | ⟨init, last, rfl⟩
  · simp [merge]
  · rw [List.concat_eq_append, merge_concat, merge_concat]
    split
    · rename_i hkey
      rw [merge_concat, if_pos hkey, List.append_assoc]
    · rw [merge_concat, if_pos rfl]

end AssistantHub.KeyRuns
