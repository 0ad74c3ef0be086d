import Mathlib.Data.List.Basic

namespace AssistantHub.Chunks

/-- Fill the current chunk up to `n` values before the next one starts. -/
def fill {α : Type*} (n : Nat) : List α → List α → List (List α)
  | [], [] => []
  | current, [] => [current]
  | current, x :: xs =>
      if current.length + 1 = n then (current ++ [x]) :: fill n [] xs
      else fill n (current ++ [x]) xs

def chunks {α : Type*} (n : Nat) (xs : List α) : List (List α) :=
  fill n [] xs

theorem fill_nil {α : Type*} (n : Nat) {current : List α} (h : current ≠ []) :
    fill n current [] = [current] := by
  cases current with
  | nil => exact absurd rfl h
  | cons x current => rfl

theorem flatten_fill {α : Type*} (n : Nat) (current xs : List α) :
    (fill n current xs).flatten = current ++ xs := by
  induction xs generalizing current with
  | nil =>
      rcases eq_or_ne current [] with rfl | h
      · rfl
      · rw [fill_nil n h, List.flatten_singleton, List.append_nil]
  | cons x xs ih =>
      rw [fill]
      split
      · rw [List.flatten_cons, ih, List.nil_append, List.append_assoc,
          List.singleton_append]
      · rw [ih, List.append_assoc, List.singleton_append]

theorem flatten_chunks {α : Type*} (n : Nat) (xs : List α) :
    (chunks n xs).flatten = xs :=
  flatten_fill n [] xs

theorem mem_fill {α : Type*} {n : Nat} {current xs : List α}
    (hcurrent : current.length < n) {chunk : List α}
    (h : chunk ∈ fill n current xs) : chunk ≠ [] ∧ chunk.length ≤ n := by
  induction xs generalizing current with
  | nil =>
      rcases eq_or_ne current [] with rfl | hne
      · simp [fill] at h
      · rw [fill_nil n hne, List.mem_singleton] at h
        exact h ▸ ⟨hne, Nat.le_of_lt hcurrent⟩
  | cons x xs ih =>
      rw [fill] at h
      split at h
      · rename_i hfull
        rcases List.mem_cons.mp h with rfl | h
        · refine ⟨by simp, ?_⟩
          rw [List.length_append, List.length_singleton]
          exact Nat.le_of_eq hfull
        · exact ih (by simp only [List.length_nil]; omega) h
      · rename_i hfull
        refine ih ?_ h
        rw [List.length_append, List.length_singleton]
        omega

theorem ne_nil_of_mem_chunks {α : Type*} {n : Nat} (hn : 0 < n)
    {xs chunk : List α} (h : chunk ∈ chunks n xs) : chunk ≠ [] :=
  (mem_fill hn h).1

theorem mem_of_mem_chunks {α : Type*} {n : Nat} {xs chunk : List α}
    (h : chunk ∈ chunks n xs) {x : α} (hx : x ∈ chunk) : x ∈ xs := by
  rw [← flatten_chunks n xs]
  exact List.mem_flatten_of_mem h hx

theorem fill_eq_cons {α : Type*} {n : Nat} {current xs : List α}
    (hcurrent : current.length < n) (hne : current ++ xs ≠ []) :
    fill n current xs =
      (current ++ xs).take n :: chunks n ((current ++ xs).drop n) := by
  induction xs generalizing current with
  | nil =>
      rw [List.append_nil] at hne ⊢
      rw [fill_nil n hne, List.take_of_length_le (Nat.le_of_lt hcurrent),
        List.drop_of_length_le (Nat.le_of_lt hcurrent)]
      rfl
  | cons x xs ih =>
      have hsplit : current ++ x :: xs = current ++ [x] ++ xs := by simp
      rw [fill, hsplit]
      split
      · rename_i hfull
        have hlength : (current ++ [x]).length = n := by simpa using hfull
        rw [List.take_left' hlength, List.drop_left' hlength]
        rfl
      · rename_i hfull
        refine ih ?_ (by simp)
        rw [List.length_append, List.length_singleton]
        omega

theorem chunks_eq_cons {α : Type*} {n : Nat} (hn : 0 < n) {xs : List α}
    (hne : xs ≠ []) : chunks n xs = xs.take n :: chunks n (xs.drop n) :=
  fill_eq_cons (by simpa using hn) hne

theorem chunks_nil {α : Type*} (n : Nat) : chunks n ([] : List α) = [] := rfl

/-- Only the last chunk may be shorter. -/
theorem length_of_mem_dropLast_chunks {α : Type*} {n : Nat} (hn : 0 < n)
    {xs chunk : List α} (h : chunk ∈ (chunks n xs).dropLast) :
    chunk.length = n := by
  induction hlength : xs.length using Nat.strongRecOn generalizing xs with
  | ind length ih =>
      rcases eq_or_ne xs [] with rfl | hne
      · simp [chunks_nil] at h
      · have hpos := List.length_pos_iff.mpr hne
        rw [chunks_eq_cons hn hne] at h
        rcases eq_or_ne (xs.drop n) [] with hrest | hrest
        · simp [hrest, chunks_nil] at h
        · have hlt := List.length_pos_iff.mpr hrest
          rw [List.length_drop] at hlt
          rw [List.dropLast_cons_of_ne_nil (by
            rw [chunks_eq_cons hn hrest]
            exact List.cons_ne_nil _ _)] at h
          rcases List.mem_cons.mp h with rfl | h
          · rw [List.length_take]
            omega
          · exact ih (xs.drop n).length (by rw [List.length_drop]; omega) h rfl

/-- `chunks_exact`: the values after the last full chunk are left out. -/
def chunksExact {α : Type*} (n : Nat) (xs : List α) : List (List α) :=
  (chunks n xs).filter fun chunk => chunk.length = n

theorem chunks_flatten {α : Type*} {n : Nat} (hn : 0 < n) {rows : List (List α)}
    (hrows : ∀ r ∈ rows, r.length = n) : chunks n rows.flatten = rows := by
  induction rows with
  | nil => rfl
  | cons r rows ih =>
      have hr : r.length = n := hrows r List.mem_cons_self
      have hne : r ++ rows.flatten ≠ [] := by
        rintro hnil
        rw [(List.append_eq_nil_iff.mp hnil).1] at hr
        exact Nat.ne_of_lt hn hr
      rw [List.flatten_cons, chunks_eq_cons hn hne, List.take_left' hr,
        List.drop_left' hr, ih fun s hs => hrows s (List.mem_cons_of_mem r hs)]

theorem chunksExact_flatten {α : Type*} {n : Nat} (hn : 0 < n)
    {rows : List (List α)} (hrows : ∀ r ∈ rows, r.length = n) :
    chunksExact n rows.flatten = rows := by
  rw [chunksExact, chunks_flatten hn hrows, List.filter_eq_self]
  intro r hr
  exact decide_eq_true (hrows r hr)

theorem length_of_mem_chunksExact {α : Type*} {n : Nat} {xs chunk : List α}
    (h : chunk ∈ chunksExact n xs) : chunk.length = n :=
  of_decide_eq_true (List.mem_filter.mp h).2

theorem length_chunksExact {α : Type*} {n : Nat} (hn : 0 < n) (xs : List α) :
    (chunksExact n xs).length = xs.length / n := by
  induction hlength : xs.length using Nat.strongRecOn generalizing xs with
  | ind length ih =>
      rcases eq_or_ne xs [] with rfl | hne
      · rw [← hlength]
        simp [chunksExact, chunks_nil]
      · have hpos := List.length_pos_iff.mpr hne
        have hrest := ih (xs.drop n).length (by rw [List.length_drop]; omega)
          (xs.drop n) rfl
        rw [chunksExact] at hrest ⊢
        rw [chunks_eq_cons hn hne, List.filter_cons, List.length_take]
        by_cases hfull : n ≤ xs.length
        · rw [Nat.min_eq_left hfull, if_pos (decide_eq_true rfl), List.length_cons,
            hrest, List.length_drop, hlength, ← Nat.div_eq_sub_div hn (hlength ▸ hfull)]
        · have hshort : min n xs.length ≠ n := by omega
          rw [if_neg (by simpa using hshort), hrest, List.length_drop,
            Nat.sub_eq_zero_of_le (by omega), Nat.zero_div,
            Nat.div_eq_of_lt (by omega)]

theorem chunks_append {α : Type*} {n : Nat} (hn : 0 < n) {xs : List α}
    (hxs : n ∣ xs.length) (ys : List α) :
    chunks n (xs ++ ys) = chunks n xs ++ chunks n ys := by
  induction hlength : xs.length using Nat.strongRecOn generalizing xs with
  | ind length ih =>
      rcases eq_or_ne xs [] with rfl | hne
      · rfl
      · have hpos := List.length_pos_iff.mpr hne
        have hle := Nat.le_of_dvd hpos hxs
        rw [chunks_eq_cons hn (by simp [hne]), chunks_eq_cons hn hne,
          List.take_append_of_le_length hle, List.drop_append_of_le_length hle,
          List.cons_append]
        refine congrArg _ (ih (xs.drop n).length ?_ ?_ rfl)
        · rw [List.length_drop]
          omega
        · rw [List.length_drop]
          exact Nat.dvd_sub hxs (Nat.dvd_refl n)

theorem chunksExact_append {α : Type*} {n : Nat} (hn : 0 < n) {xs : List α}
    (hxs : n ∣ xs.length) (ys : List α) :
    chunksExact n (xs ++ ys) = chunksExact n xs ++ chunksExact n ys := by
  rw [chunksExact, chunks_append hn hxs, List.filter_append]
  rfl

/-- Pieces of whole chunks have the same exact chunks as all of them together;
only the last piece may end within one. -/
theorem flatMap_chunksExact {α : Type*} {n : Nat} (hn : 0 < n)
    {pieces : List (List α)} (h : ∀ p ∈ pieces.dropLast, n ∣ p.length) :
    pieces.flatMap (chunksExact n) = chunksExact n pieces.flatten := by
  induction pieces with
  | nil => rfl
  | cons p pieces ih =>
      rcases eq_or_ne pieces [] with rfl | hne
      · simp
      · rw [List.dropLast_cons_of_ne_nil hne] at h
        rw [List.flatMap_cons, List.flatten_cons,
          chunksExact_append hn (h p List.mem_cons_self),
          ih fun q hq => h q (List.mem_cons_of_mem p hq)]

theorem chunksExact_of_le {α : Type*} {n : Nat} (hn : 0 < n) {xs : List α}
    (h : n ≤ xs.length) :
    chunksExact n xs = xs.take n :: chunksExact n (xs.drop n) := by
  have hne : xs ≠ [] := List.length_pos_iff.mp (Nat.lt_of_lt_of_le hn h)
  rw [chunksExact, chunks_eq_cons hn hne, List.filter_cons, List.length_take,
    Nat.min_eq_left h, if_pos (decide_eq_true rfl)]
  rfl

theorem chunksExact_of_lt {α : Type*} {n : Nat} {xs : List α} (h : xs.length < n) :
    chunksExact n xs = [] := by
  apply List.length_eq_zero_iff.mp
  rw [length_chunksExact (Nat.zero_lt_of_lt h), Nat.div_eq_of_lt h]

/-- The values that are in no exact chunk are the last ones. -/
theorem flatten_chunksExact {α : Type*} {n : Nat} (hn : 0 < n) (xs : List α) :
    (chunksExact n xs).flatten = xs.take (xs.length / n * n) := by
  induction hlength : xs.length using Nat.strongRecOn generalizing xs with
  | ind length ih =>
      rcases Nat.lt_or_ge xs.length n with hlt | hge
      · rw [chunksExact_of_lt hlt, ← hlength, Nat.div_eq_of_lt hlt, Nat.zero_mul,
          List.take_zero]
        rfl
      · have hrest := ih (xs.drop n).length (by rw [List.length_drop]; omega)
          (xs.drop n) rfl
        have hdiv : length / n * n = n + (length - n) / n * n := by
          rw [Nat.div_eq_sub_div hn (hlength ▸ hge), Nat.succ_mul, Nat.add_comm]
        rw [chunksExact_of_le hn hge, List.flatten_cons, hrest, List.length_drop,
          hlength, hdiv, List.take_add]

end AssistantHub.Chunks
