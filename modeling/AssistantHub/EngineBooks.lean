import AssistantHub.Supervision

namespace AssistantHub.EngineBooks

open AssistantHub.ChildRuns
open AssistantHub.CrashSteps
open AssistantHub.EnginePlans
open AssistantHub.Engines
open AssistantHub.RunPrefixes
open AssistantHub.Supervision

/-- The spec of the child process, if there is one. A child that is stopped may
live until its end is recorded. -/
def child : Phase → Option ChildSpec
  | .spawned spec | .running spec _ => some spec
  | .ended spec _ how => if how = .exited then none else some spec
  | .idle | .planned _ | .resting | .stopped => none

/-- Starts that the counter does not show yet. -/
def uncounted : Phase → Nat
  | .spawned _ => 1
  | _ => 0

/-- The books of the supervisor: the program of the current spec, the active
engine and the engine that the next outcome is charged to belong together. -/
structure Agrees (cfg : LlmConfig) (s : Supervisor LlmSpecs) : Prop where
  cfg_eq : s.source.cfg = cfg
  engine : ∀ spec, s.phase.spec = some spec →
    spec.program = cfg.program s.source.active ∧
      s.source.last = some s.source.active
  counted : s.starts + uncounted s.phase = s.spawns

theorem Agrees.start (cfg : LlmConfig) (host : Host) :
    Agrees cfg (Supervisor.start (setup cfg host)) where
  cfg_eq := rfl
  engine := nofun
  counted := rfl

theorem Agrees.move {cfg : LlmConfig} {s : Supervisor LlmSpecs}
    (h : Agrees cfg s) {phase : Phase} (starts spawns : Nat)
    (hspec : phase.spec = none ∨ phase.spec = s.phase.spec)
    (hcounted : starts + uncounted phase = spawns) :
    Agrees cfg
      { s with phase := phase, starts := starts, spawns := spawns } where
  cfg_eq := h.cfg_eq
  engine := by
    intro spec hphase
    rcases hspec with hspec | hspec
    · rw [hspec] at hphase
      cases hphase
    · exact h.engine spec (hspec ▸ hphase)
  counted := hcounted

theorem Agrees.record {cfg : LlmConfig} {s : Supervisor LlmSpecs}
    (h : Agrees cfg s) (spec : ChildSpec) (o : RunOutcome)
    (hphase : uncounted s.phase = 0) : Agrees cfg (s.record spec o) where
  cfg_eq := h.cfg_eq
  engine := nofun
  counted := by
    have hcounted := h.counted
    rw [hphase] at hcounted
    exact hcounted

theorem Agrees.plan {cfg : LlmConfig} {s : Supervisor LlmSpecs}
    (h : Agrees cfg s) (hphase : s.phase = .idle) (seen : Seen) :
    Agrees cfg
      { s with
        source := (s.source.plan s.last seen).2
        phase := .planned (s.source.plan s.last seen).1.2
        log := s.log ++ [.planned (s.source.plan s.last seen).1.2] } where
  cfg_eq := h.cfg_eq
  engine := by
    intro spec heq
    obtain rfl := Option.some.inj heq
    rw [program_plan, h.cfg_eq]
    exact ⟨rfl, rfl⟩
  counted := by
    have hcounted := h.counted
    rw [hphase] at hcounted
    exact hcounted

theorem Agrees.next {cfg : LlmConfig} {s s' : Supervisor LlmSpecs}
    (h : Agrees cfg s) (hnext : Next LlmSpecs.source s s') : Agrees cfg s' := by
  have hcounted := h.counted
  cases hnext with
  | stays => exact h
  | plans seen hphase => exact h.plan hphase seen
  | spawns spec hphase =>
      rw [hphase] at hcounted
      exact h.move _ _ (Or.inr (by rw [hphase]; rfl)) (by rw [← hcounted]; rfl)
  | counts spec hphase =>
      rw [hphase] at hcounted
      exact h.move _ _ (Or.inr (by rw [hphase]; rfl)) hcounted
  | probes spec w w' hphase =>
      rw [hphase] at hcounted
      exact h.move _ _ (Or.inr (by rw [hphase]; rfl)) hcounted
  | ends spec w how hphase =>
      rw [hphase] at hcounted
      exact h.move _ _ (Or.inr (by rw [hphase]; rfl)) hcounted
  | drains spec w w' how hphase =>
      rw [hphase] at hcounted
      exact h.move _ _ (Or.inr (by rw [hphase]; rfl)) hcounted
  | fails spec ran hphase => exact h.record _ _ (by rw [hphase]; rfl)
  | closes spec w how ran hphase => exact h.record _ _ (by rw [hphase]; rfl)
  | rests hphase =>
      rw [hphase] at hcounted
      exact h.move _ _ (Or.inl rfl) hcounted
  | stops hphase =>
      refine h.move _ _ (Or.inl rfl) ?_
      rw [← hcounted]
      match hcase : s.phase with
      | .spawned spec => exact absurd hcase (hphase spec)
      | .idle | .planned _ | .running _ _ | .ended _ _ _ | .resting | .stopped =>
          rfl

theorem spec_of_child {phase : Phase} {spec : ChildSpec}
    (h : child phase = some spec) : phase.spec = some spec := by
  cases phase with
  | spawned | running => exact h
  | ended spec' w how =>
      rw [child] at h
      split at h
      · cases h
      · exact h
  | idle | planned | resting | stopped => cases h

/-- Only a spawn gives a child to a supervisor without one. -/
theorem child_next {s s' : Supervisor LlmSpecs}
    (hnext : Next LlmSpecs.source s s') {spec : ChildSpec}
    (h : child s'.phase = some spec) :
    child s.phase = some spec ∨ s.phase = .planned spec := by
  cases hnext with
  | stays => exact Or.inl h
  | spawns spec' hphase =>
      obtain rfl := Option.some.inj h
      exact Or.inr hphase
  | counts spec' hphase =>
      rw [hphase]
      exact Or.inl h
  | probes spec' w w' hphase =>
      rw [hphase]
      exact Or.inl h
  | ends spec' w how hphase =>
      rw [hphase]
      have hspec := spec_of_child h
      exact Or.inl hspec
  | drains spec' w w' how hphase =>
      rw [hphase]
      exact Or.inl h
  | plans | fails | closes | rests | stops => cases h

end AssistantHub.EngineBooks
