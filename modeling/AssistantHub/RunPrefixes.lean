import AssistantHub.CrashSteps
import Mathlib.Data.List.Induction

namespace AssistantHub.RunPrefixes

open AssistantHub.CrashSteps

theorem run_append {σ ω : Type*} (apply : ω → σ → σ) (ops ops' : List ω) (s : σ) :
    run apply (ops ++ ops') s = run apply ops' (run apply ops s) :=
  List.foldl_append

theorem run_concat {σ ω : Type*} (apply : ω → σ → σ) (ops : List ω) (op : ω)
    (s : σ) : run apply (ops ++ [op]) s = apply op (run apply ops s) := by
  rw [run_append]
  rfl

/-- What holds of no operations and is kept by each further one holds of every
beginning of a run. -/
theorem prefix_induct {ω : Type*} {ops : List ω} {p : List ω → Prop}
    (hnil : p [])
    (hconcat : ∀ past op, past ++ [op] <+: ops → p past → p (past ++ [op]))
    {past : List ω} (hpast : past <+: ops) : p past := by
  induction past using List.reverseRecOn with
  | nil => exact hnil
  | append_singleton past op ih =>
      have hshorter : past <+: ops := (List.prefix_append past [op]).trans hpast
      exact hconcat past op hpast (ih hshorter)

theorem run_invariant {σ ω : Type*} {apply : ω → σ → σ} {p : σ → Prop}
    (happly : ∀ op s, p s → p (apply op s)) (ops : List ω) {s : σ} (hs : p s) :
    p (run apply ops s) := by
  induction ops generalizing s with
  | nil => exact hs
  | cons op ops ih => exact ih (happly op s hs)

theorem forall_steps_cons {σ ω : Type*} {apply : ω → σ → σ} {p : ω → σ → Prop}
    {op : ω} {ops : List ω} {s : σ} :
    (∀ past a, past ++ [a] <+: op :: ops → p a (run apply past s)) ↔
      p op s ∧
        ∀ past a, past ++ [a] <+: ops → p a (run apply past (apply op s)) := by
  constructor
  · intro h
    refine ⟨h [] op (by simp), ?_⟩
    intro past a hpast
    exact h (op :: past) a (List.cons_prefix_cons.mpr ⟨rfl, hpast⟩)
  · rintro ⟨hfirst, hrest⟩ past a hpast
    cases past with
    | nil =>
        obtain ⟨rfl, -⟩ := List.cons_prefix_cons.mp hpast
        exact hfirst
    | cons first past =>
        obtain ⟨rfl, hlater⟩ := List.cons_prefix_cons.mp hpast
        exact hrest past a hlater

theorem forall_steps_nil {σ ω : Type*} {apply : ω → σ → σ} {p : ω → σ → Prop}
    {s : σ} : ∀ past a, past ++ [a] <+: [] → p a (run apply past s) := by
  intro past a hpast
  simp at hpast

/-- A part of the state that only some operations read or write is, after a run,
what these operations alone make of it. -/
theorem run_filter {σ ω β : Type*} {apply : ω → σ → σ} (view : σ → β)
    (about : ω → Bool)
    (hsame : ∀ op s s', about op = true → view s = view s' →
      view (apply op s) = view (apply op s'))
    (hother : ∀ op s, about op = false → view (apply op s) = view s) (ops : List ω) (s : σ) :
    view (run apply ops s) = view (run apply (ops.filter about) s) := by
  induction ops using List.reverseRecOn with
  | nil => rfl
  | append_singleton ops op ih =>
      rw [run_concat, List.filter_append]
      by_cases hop : about op = true
      · rw [List.filter_singleton, hop, cond_true, run_concat]
        exact hsame op _ _ hop ih
      · rw [Bool.not_eq_true] at hop
        rw [List.filter_singleton, hop, cond_false, List.append_nil, hother op _ hop]
        exact ih

theorem run_filterMap {σ ω α : Type*} {apply : ω → σ → σ} {f : ω → Option α}
    {step : α → σ → σ} (hstep : ∀ op s, apply op s = (f op).elim s fun a => step a s)
    (ops : List ω) (s : σ) : run apply ops s = run step (ops.filterMap f) s := by
  induction ops generalizing s with
  | nil => rfl
  | cons op ops ih =>
      show run apply ops (apply op s) = _
      rw [ih, hstep, List.filterMap_cons]
      rcases f op with _ | a <;> rfl

end AssistantHub.RunPrefixes
