import Mathlib.Data.List.Nodup
import Mathlib.Data.List.Pairwise

namespace AssistantHub.RenameChains

variable {κ ι : Type*} [DecidableEq κ]

/-- The names after one file has taken the name of another. -/
def move (target source : κ) (m : κ → Option ι) : κ → Option ι :=
  fun name =>
    if target = name then m source
    else if name = source then none
    else m name

/-- The names after each file in the list has been renamed in turn. -/
def moved (dest : κ → κ) : List κ → (κ → Option ι) → κ → Option ι
  | [], m => m
  | name :: names, m => moved dest names (move (dest name) name m)

def gone (names : List κ) (m : κ → Option ι) : κ → Option ι :=
  fun name => if name ∈ names then none else m name

theorem gone_nil (m : κ → Option ι) : gone [] m = m := by
  funext name
  simp [gone]

theorem gone_concat (names : List κ) (name : κ) (m : κ → Option ι) :
    gone (names ++ [name]) m =
      fun other => if other = name then none else gone names m other := by
  funext other
  simp only [gone, List.mem_append, List.mem_singleton]
  split <;> split <;> simp_all

theorem moved_append (dest : κ → κ) (names later : List κ) (m : κ → Option ι) :
    moved dest (names ++ later) m = moved dest later (moved dest names m) := by
  induction names generalizing m with
  | nil => rfl
  | cons name names ih => exact ih (move (dest name) name m)

theorem moved_concat (dest : κ → κ) (names : List κ) (name : κ)
    (m : κ → Option ι) :
    moved dest (names ++ [name]) m =
      move (dest name) name (moved dest names m) := moved_append dest names [name] m

theorem move_of_ne {target source name : κ} (m : κ → Option ι)
    (htarget : target ≠ name) (hsource : name ≠ source) :
    move target source m name = m name := by
  simp [move, htarget, hsource]

theorem moved_of_not_mem {dest : κ → κ} {names : List κ} {name : κ}
    (m : κ → Option ι) (hsource : name ∉ names)
    (htarget : ∀ other ∈ names, dest other ≠ name) :
    moved dest names m name = m name := by
  induction names generalizing m with
  | nil => rfl
  | cons other names ih =>
      simp only [List.mem_cons, not_or, forall_eq_or_imp] at hsource htarget
      rw [moved, ih _ hsource.2 htarget.2,
        move_of_ne m htarget.1 hsource.1]

/-- A file that nothing has been moved over arrives as it was. -/
theorem moved_target {dest : κ → κ} {before after : List κ} {name : κ}
    (m : κ → Option ι) (hnodup : (before ++ name :: after).Nodup)
    (hinj : ∀ other ∈ after, dest other = dest name → other = name)
    (hsource : dest name ∉ after) (hfree : ∀ other ∈ before, dest other ≠ name) :
    moved dest (before ++ name :: after) m (dest name) = m name := by
  rw [List.nodup_append, List.nodup_cons] at hnodup
  obtain ⟨-, ⟨hafter, -⟩, hdisjoint⟩ := hnodup
  have hbefore : name ∉ before := fun h =>
    hdisjoint name h name List.mem_cons_self rfl
  have htarget : ∀ other ∈ after, dest other ≠ dest name := by
    intro other hother h
    exact hafter (hinj other hother h ▸ hother)
  rw [moved_append, moved, moved_of_not_mem _ hsource htarget, move,
    if_pos rfl, moved_of_not_mem _ hbefore hfree]

/-- A renamed file's old name is free, unless another file has taken it. -/
theorem moved_source {dest : κ → κ} {names : List κ} {name : κ} (m : κ → Option ι)
    (hmem : name ∈ names) (hnodup : names.Nodup)
    (htarget : ∀ other ∈ names, dest other ≠ name) :
    moved dest names m name = none := by
  obtain ⟨before, after, rfl⟩ := List.append_of_mem hmem
  rw [List.nodup_append, List.nodup_cons] at hnodup
  rw [moved_append, moved, moved_of_not_mem _ hnodup.2.1.1 fun other hother =>
      htarget other (List.mem_append_right _ (List.mem_cons_of_mem _ hother)),
    move, if_neg (htarget name hmem), if_pos rfl]

theorem lost_move {m : κ → Option ι} {i : ι} (hlost : ∀ name, m name ≠ some i)
    (target source name : κ) : move target source m name ≠ some i := by
  rw [move]
  split
  · exact hlost source
  · split
    · simp
    · exact hlost name

theorem lost_moved {dest : κ → κ} {m : κ → Option ι} {i : ι}
    (hlost : ∀ name, m name ≠ some i) (names : List κ) (name : κ) :
    moved dest names m name ≠ some i := by
  induction names generalizing m with
  | nil => exact hlost name
  | cons other names ih => exact ih (lost_move hlost (dest other) other)

theorem only_move {m : κ → Option ι} {i : ι} {name source : κ}
    (honly : ∀ other, m other = some i → other = name) (hne : source ≠ name)
    (target other : κ) (h : move target source m other = some i) :
    other = name := by
  rw [move] at h
  split at h
  · exact absurd (honly source h) hne
  · split at h
    · cases h
    · exact honly other h

/-- A file is lost when another one is moved over it. -/
theorem lost_of_overwritten {dest : κ → κ} {before : List κ} {name source : κ}
    {m : κ → Option ι} {i : ι}
    (honly : ∀ other, m other = some i → other = name) (hname : name ∉ before)
    (hsource : source ∈ before) (hover : dest source = name) (other : κ) :
    moved dest before m other ≠ some i := by
  induction before generalizing m with
  | nil => simp at hsource
  | cons first before ih =>
      simp only [List.mem_cons, not_or] at hname
      rcases List.mem_cons.mp hsource with rfl | hlater
      · refine lost_moved ?_ before other
        intro x hx
        obtain rfl := only_move honly (Ne.symm hname.1) (dest source) x hx
        rw [move, if_pos hover] at hx
        exact hname.1 (honly source hx).symm
      · exact ih (only_move honly (Ne.symm hname.1) (dest first)) hname.2 hlater

theorem moved_ne_none {dest : κ → κ} {names : List κ} {m : κ → Option ι}
    {name : κ} (hname : name ∉ names) (hm : m name ≠ none)
    (hnames : ∀ other ∈ names, m other ≠ none) (hnodup : names.Nodup) :
    moved dest names m name ≠ none := by
  induction names generalizing m with
  | nil => exact hm
  | cons first names ih =>
      simp only [List.mem_cons, not_or, forall_eq_or_imp] at hname hnames
      rw [List.nodup_cons] at hnodup
      have hkeep : ∀ x, x ≠ first → m x ≠ none →
          move (dest first) first m x ≠ none := by
        intro x hx hmx
        rw [move, if_neg hx]
        split
        · exact hnames.1
        · exact hmx
      apply ih hname.2 (hkeep name hname.1 hm) _ hnodup.2
      intro x hx
      exact hkeep x (fun h => hnodup.1 (h ▸ hx)) (hnames.2 x hx)

end AssistantHub.RenameChains
