import Mathlib.Data.List.Basic

namespace AssistantHub.CrashSteps

def run {σ ω : Type*} (apply : ω → σ → σ) (ops : List ω) (s : σ) : σ :=
  ops.foldl (fun s op => apply op s) s

/-- What a kill leaves after the first `k` operations. -/
def cut {σ ω : Type*} (apply : ω → σ → σ) (ops : List ω) (k : Nat) (s : σ) : σ :=
  run apply (ops.take k) s

theorem cut_of_length_le {σ ω : Type*} (apply : ω → σ → σ) {ops : List ω}
    {k : Nat} (h : ops.length ≤ k) (s : σ) : cut apply ops k s = run apply ops s := by
  rw [cut, List.take_of_length_le h]

theorem observe_run {σ ω τ : Type*} {apply : ω → σ → σ} (observe : σ → τ)
    {ops : List ω} (hframe : ∀ op ∈ ops, ∀ s, observe (apply op s) = observe s)
    (s : σ) : observe (run apply ops s) = observe s := by
  induction ops generalizing s with
  | nil => rfl
  | cons op ops ih =>
      change observe (run apply ops (apply op s)) = observe s
      rw [ih fun op' hop' => hframe op' (List.mem_cons_of_mem op hop'),
        hframe op List.mem_cons_self]

theorem observe_cut {σ ω τ : Type*} {apply : ω → σ → σ} (observe : σ → τ)
    {ops : List ω} {n k : Nat} (hk : k ≤ n)
    (hframe : ∀ op ∈ ops.take n, ∀ s, observe (apply op s) = observe s)
    (s : σ) : observe (cut apply ops k s) = observe s := by
  apply observe_run observe
  intro op hop
  exact hframe op (List.take_subset_take_left ops hk hop)

end AssistantHub.CrashSteps
