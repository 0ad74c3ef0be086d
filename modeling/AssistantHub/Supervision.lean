import AssistantHub.EnginePlans

namespace AssistantHub.Supervision

open AssistantHub.ChildRuns
open AssistantHub.CrashSteps
open AssistantHub.EnginePlans
open AssistantHub.Engines
open AssistantHub.RunPrefixes
open AssistantHub.Streaks

/-- Makes the spec for each start, from the outcome of the run before and from
what it finds on the machine. -/
structure SpecSource (σ ι : Type*) where
  next : Option RunOutcome → ι → σ → ChildSpec × σ

def LlmSpecs.source : SpecSource LlmSpecs Seen where
  next last seen s := ((s.plan last seen).1.2, (s.plan last seen).2)

/-- Where the loop of `spawn_source` is. A child runs from `spawned` on, and the
counter of its starts follows. In `ended` the end of the run has a name, and the
output of the child is drained. -/
inductive Phase where
  | idle
  | planned (spec : ChildSpec)
  | spawned (spec : ChildSpec)
  | running (spec : ChildSpec) (watch : Watch)
  | ended (spec : ChildSpec) (watch : Watch) (how : Ended)
  | resting
  | stopped

def Phase.spec : Phase → Option ChildSpec
  | .planned spec | .spawned spec | .running spec _ | .ended spec _ _ => some spec
  | .idle | .resting | .stopped => none

inductive Record where
  | planned (spec : ChildSpec)
  | ended (spec : ChildSpec) (outcome : RunOutcome)

/-- The supervisor of one child. `spawns` counts the successful spawns, and the
log has the specs and the ends of the runs in their order. -/
structure Supervisor (σ : Type*) where
  source : σ
  last : Option RunOutcome
  phase : Phase
  starts : Nat
  spawns : Nat
  log : List Record

def Supervisor.start {σ : Type*} (source : σ) : Supervisor σ :=
  { source := source
    last := none
    phase := .idle
    starts := 0
    spawns := 0
    log := [] }

/-- What happens next. The select of the loop may take any branch that is
ready: `exits` is that of the child, `stops` the one of `fatal`. -/
inductive Event (ι : Type*) where
  | plan (seen : ι)
  | spawn
  | spawnFails (ran : Nat)
  | count
  | probe (elapsed : Nat) (ok : Bool)
  | exits
  | stops
  | closes (ran : Nat)
  | rested
  | cancel

def probed (spec : ChildSpec) (elapsed : Nat) (ok : Bool) (w : Watch) : Watch :=
  match spec.health with
  | some health => w.probe health spec.restartWhenHealthy elapsed ok
  | none => w

def Supervisor.record {σ : Type*} (spec : ChildSpec) (o : RunOutcome)
    (s : Supervisor σ) : Supervisor σ :=
  { s with last := some o, phase := .resting, log := s.log ++ [.ended spec o] }

/-- An event that is not possible changes nothing. -/
def step {σ ι : Type*} (src : SpecSource σ ι) (e : Event ι)
    (s : Supervisor σ) : Supervisor σ :=
  match e, s.phase with
  | .plan seen, .idle =>
      let next := src.next s.last seen s.source
      { s with
        source := next.2
        phase := .planned next.1
        log := s.log ++ [.planned next.1] }
  | .spawn, .planned spec =>
      { s with phase := .spawned spec, spawns := s.spawns + 1 }
  | .spawnFails ran, .planned spec => s.record spec ⟨.spawnFailed, false, ran⟩
  | .count, .spawned spec =>
      { s with phase := .running spec Watch.start, starts := s.starts + 1 }
  | .probe elapsed ok, .running spec w =>
      { s with phase := .running spec (probed spec elapsed ok w) }
  -- The watcher is only aborted after the select.
  | .probe elapsed ok, .ended spec w how =>
      { s with phase := .ended spec (probed spec elapsed ok w) how }
  | .exits, .running spec w => { s with phase := .ended spec w .exited }
  | .stops, .running spec w =>
      if w.fatal then { s with phase := .ended spec w w.ended } else s
  | .closes ran, .ended spec w how => s.record spec ⟨how, w.healthy, ran⟩
  | .rested, .resting => { s with phase := .idle }
  | .cancel, .idle => { s with phase := .stopped }
  | .cancel, .running _ _ => { s with phase := .stopped }
  | .cancel, .resting => { s with phase := .stopped }
  | _, _ => s

def supervised {σ ι : Type*} (src : SpecSource σ ι) (events : List (Event ι))
    (source : σ) : Supervisor σ :=
  run (step src) events (Supervisor.start source)

theorem replace_probed {spec : ChildSpec} {elapsed : Nat} {ok : Bool}
    {w : Watch} (h : (probed spec elapsed ok w).replace = true) :
    w.replace = true ∨ spec.restartWhenHealthy = true := by
  rw [probed] at h
  split at h
  · exact replace_probe h
  · exact Or.inl h

/-- All that one event can do to a supervisor. -/
inductive Next {σ ι : Type*} (src : SpecSource σ ι) (s : Supervisor σ) :
    Supervisor σ → Prop where
  | stays : Next src s s
  | plans (seen : ι) : s.phase = .idle →
      Next src s
        { s with
          source := (src.next s.last seen s.source).2
          phase := .planned (src.next s.last seen s.source).1
          log := s.log ++ [.planned (src.next s.last seen s.source).1] }
  | spawns (spec : ChildSpec) : s.phase = .planned spec →
      Next src s { s with phase := .spawned spec, spawns := s.spawns + 1 }
  | counts (spec : ChildSpec) : s.phase = .spawned spec →
      Next src s
        { s with phase := .running spec Watch.start, starts := s.starts + 1 }
  | probes (spec : ChildSpec) (w w' : Watch) : s.phase = .running spec w →
      (w'.replace = true → w.replace = true ∨ spec.restartWhenHealthy = true) →
        Next src s { s with phase := .running spec w' }
  | ends (spec : ChildSpec) (w : Watch) (how : Ended) :
      s.phase = .running spec w → (how = .replaced → w.replace = true) →
        Next src s { s with phase := .ended spec w how }
  | drains (spec : ChildSpec) (w w' : Watch) (how : Ended) :
      s.phase = .ended spec w how →
        Next src s { s with phase := .ended spec w' how }
  | fails (spec : ChildSpec) (ran : Nat) : s.phase = .planned spec →
      Next src s (s.record spec ⟨.spawnFailed, false, ran⟩)
  | closes (spec : ChildSpec) (w : Watch) (how : Ended) (ran : Nat) :
      s.phase = .ended spec w how →
        Next src s (s.record spec ⟨how, w.healthy, ran⟩)
  | rests : s.phase = .resting → Next src s { s with phase := .idle }
  | stops : (∀ spec, s.phase ≠ .spawned spec) →
      Next src s { s with phase := .stopped }

theorem next_step {σ ι : Type*} (src : SpecSource σ ι) (e : Event ι)
    (s : Supervisor σ) : Next src s (step src e s) := by
  rw [step.eq_def]
  split
  · exact .plans _ ‹_›
  · exact .spawns _ ‹_›
  · exact .fails _ _ ‹_›
  · exact .counts _ ‹_›
  · exact .probes _ _ _ ‹_› replace_probed
  · exact .drains _ _ _ _ ‹_›
  · exact .ends _ _ _ ‹_› nofun
  · split
    · refine .ends _ _ _ ‹_› ?_
      intro hended
      rw [Watch.ended] at hended
      split at hended
      · assumption
      · cases hended
    · exact .stays
  · exact .closes _ _ _ _ ‹_›
  · exact .rests ‹_›
  · exact .stops (by simp_all)
  · exact .stops (by simp_all)
  · exact .stops (by simp_all)
  · exact .stays

def Record.replaced : Record → Bool
  | .planned _ => false
  | .ended _ o => decide (o.ended = .replaced)

def Record.restarts : Record → Bool
  | .planned spec => spec.restartWhenHealthy
  | .ended _ _ => false

/-- A run has ended to be replaced, and the source knows or is told next. -/
def Spent (s : Supervisor LlmSpecs) : Prop :=
  s.source.downloadDone = true ∨ ∃ o, s.last = some o ∧ o.ended = .replaced

/-- The invariant behind the bound on replaced runs. -/
structure ReplacesOnce (cfg : LlmConfig) (s : Supervisor LlmSpecs) : Prop where
  cfg_eq : s.source.cfg = cfg
  spent : ∀ r ∈ s.log, r.replaced = true → Spent s
  absorbed : s.phase.spec ≠ none → Spent s → s.source.downloadDone = true
  fresh : ∀ spec, s.phase.spec = some spec → spec.restartWhenHealthy = true →
    spec = llamacppSpec cfg true ∧ ¬Spent s
  running : ∀ spec w, s.phase = .running spec w → w.replace = true →
    spec.restartWhenHealthy = true
  ended : ∀ spec w how, s.phase = .ended spec w how → how = .replaced →
    spec.restartWhenHealthy = true
  replaced : ∀ spec o, .ended spec o ∈ s.log → o.ended = .replaced →
    spec = llamacppSpec cfg true
  settles : s.log.Pairwise fun r r' => r.replaced = true →
    r'.replaced = false ∧ r'.restarts = false

theorem ReplacesOnce.start (cfg : LlmConfig) (host : Host) :
    ReplacesOnce cfg (Supervisor.start (setup cfg host)) where
  cfg_eq := rfl
  spent := nofun
  absorbed := nofun
  fresh := nofun
  running := nofun
  ended := nofun
  replaced := nofun
  settles := List.Pairwise.nil

/-- A step that only moves on within a run. -/
theorem ReplacesOnce.move {cfg : LlmConfig} {s : Supervisor LlmSpecs}
    (h : ReplacesOnce cfg s) {phase : Phase} (starts spawns : Nat)
    (hspec : phase.spec = none ∨ phase.spec = s.phase.spec)
    (hrunning : ∀ spec w, phase = .running spec w → w.replace = true →
      spec.restartWhenHealthy = true)
    (hended : ∀ spec w how, phase = .ended spec w how → how = .replaced →
      spec.restartWhenHealthy = true) :
    ReplacesOnce cfg
      { s with phase := phase, starts := starts, spawns := spawns } where
  cfg_eq := h.cfg_eq
  spent := h.spent
  absorbed := by
    intro hne hspent
    rcases hspec with hspec | hspec
    · exact absurd hspec hne
    · exact h.absorbed (hspec ▸ hne) hspent
  fresh := by
    intro spec hphase hrestart
    rcases hspec with hspec | hspec
    · rw [hspec] at hphase
      cases hphase
    · exact h.fresh spec (hspec ▸ hphase) hrestart
  running := hrunning
  ended := hended
  replaced := h.replaced
  settles := h.settles

theorem ReplacesOnce.plan {cfg : LlmConfig} {s : Supervisor LlmSpecs}
    (h : ReplacesOnce cfg s) (seen : Seen) :
    ReplacesOnce cfg
      { s with
        source := (s.source.plan s.last seen).2
        phase := .planned (s.source.plan s.last seen).1.2
        log := s.log ++ [.planned (s.source.plan s.last seen).1.2] } := by
  have hdone : ∀ {source : LlmSpecs}, source.downloadDone =
      (s.source.downloadDone || s.last.any fun o => decide (o.ended = .replaced)) →
        (Spent s ↔ source.downloadDone = true) := by
    intro source hsource
    rw [Spent, hsource, Bool.or_eq_true, Option.any_eq_true]
    simp only [decide_eq_true_eq]
  have hspent := hdone (downloadDone_plan s.last seen s.source)
  have hrestart : (s.source.plan s.last seen).1.2.restartWhenHealthy = true →
      (s.source.plan s.last seen).1.2 = llamacppSpec cfg true ∧ ¬Spent s := by
    intro hrestart
    obtain ⟨hkind, hnot⟩ := of_restartWhenHealthy hrestart
    rw [spec_plan, hkind] at hrestart ⊢
    rw [hspent, hnot, ← h.cfg_eq]
    exact ⟨congrArg (llamacppSpec s.source.cfg) hrestart, Bool.false_ne_true⟩
  refine
    { cfg_eq := h.cfg_eq
      spent := ?_
      absorbed := ?_
      fresh := ?_
      running := nofun
      ended := nofun
      replaced := ?_
      settles := ?_ }
  · intro r hr hreplaced
    rcases List.mem_append.mp hr with hr | hr
    · exact Or.inl (hspent.mp (h.spent r hr hreplaced))
    · rw [List.mem_singleton.mp hr] at hreplaced
      cases hreplaced
  · rintro - (hdone | hlast)
    · exact hdone
    · exact hspent.mp (Or.inr hlast)
  · intro spec hphase hspec
    obtain rfl := Option.some.inj hphase
    obtain ⟨heq, hnot⟩ := hrestart hspec
    refine ⟨heq, ?_⟩
    rintro (hdone | hlast)
    · exact hnot (hspent.mpr hdone)
    · exact hnot (Or.inr hlast)
  · intro spec o hmem
    rcases List.mem_append.mp hmem with hmem | hmem
    · exact h.replaced spec o hmem
    · cases List.mem_singleton.mp hmem
  · rw [List.pairwise_append]
    refine ⟨h.settles, List.pairwise_singleton _ _, ?_⟩
    intro r hr r' hr' hreplaced
    rw [List.mem_singleton.mp hr']
    refine ⟨rfl, ?_⟩
    exact eq_false_of_ne_true fun hspec =>
      (hrestart hspec).2 (h.spent r hr hreplaced)

theorem ReplacesOnce.record {cfg : LlmConfig} {s : Supervisor LlmSpecs}
    (h : ReplacesOnce cfg s) {spec : ChildSpec} {o : RunOutcome}
    (hphase : s.phase.spec = some spec)
    (ho : o.ended = .replaced → spec.restartWhenHealthy = true) :
    ReplacesOnce cfg (s.record spec o) := by
  have hrun : s.phase.spec ≠ none := by
    rw [hphase]
    exact Option.some_ne_none spec
  refine
    { cfg_eq := h.cfg_eq
      spent := ?_
      absorbed := fun hne => absurd rfl hne
      fresh := nofun
      running := nofun
      ended := nofun
      replaced := ?_
      settles := ?_ }
  · intro r hr hreplaced
    rcases List.mem_append.mp hr with hr | hr
    · exact Or.inl (h.absorbed hrun (h.spent r hr hreplaced))
    · rw [List.mem_singleton.mp hr] at hreplaced
      exact Or.inr ⟨o, rfl, of_decide_eq_true hreplaced⟩
  · intro spec' o' hmem hreplaced
    rcases List.mem_append.mp hmem with hmem | hmem
    · exact h.replaced spec' o' hmem hreplaced
    · obtain ⟨rfl, rfl⟩ := Record.ended.inj (List.mem_singleton.mp hmem)
      exact (h.fresh spec' hphase (ho hreplaced)).1
  · change List.Pairwise _ (s.log ++ [_])
    rw [List.pairwise_append]
    refine ⟨h.settles, List.pairwise_singleton _ _, ?_⟩
    intro r hr r' hr' hreplaced
    rw [List.mem_singleton.mp hr']
    refine ⟨decide_eq_false ?_, rfl⟩
    intro hended
    exact (h.fresh spec hphase (ho hended)).2 (h.spent r hr hreplaced)

theorem ReplacesOnce.next {cfg : LlmConfig} {s s' : Supervisor LlmSpecs}
    (h : ReplacesOnce cfg s) (hnext : Next LlmSpecs.source s s') :
    ReplacesOnce cfg s' := by
  cases hnext with
  | stays => exact h
  | plans seen hphase => exact h.plan seen
  | spawns spec hphase =>
      exact h.move _ _ (Or.inr (by rw [hphase]; rfl)) nofun nofun
  | counts spec hphase =>
      refine h.move _ _ (Or.inr (by rw [hphase]; rfl)) ?_ nofun
      intro spec' w heq hreplace
      obtain ⟨-, rfl⟩ := Phase.running.inj heq
      cases hreplace
  | probes spec w w' hphase hreplace =>
      refine h.move _ _ (Or.inr (by rw [hphase]; rfl)) ?_ nofun
      intro spec' w'' heq hw
      obtain ⟨rfl, rfl⟩ := Phase.running.inj heq
      rcases hreplace hw with hold | hrestart
      · exact h.running spec w hphase hold
      · exact hrestart
  | ends spec w how hphase hhow =>
      refine h.move _ _ (Or.inr (by rw [hphase]; rfl)) nofun ?_
      intro spec' w' how' heq hreplaced
      obtain ⟨rfl, rfl, rfl⟩ := Phase.ended.inj heq
      exact h.running spec w hphase (hhow hreplaced)
  | drains spec w w' how hphase =>
      refine h.move _ _ (Or.inr (by rw [hphase]; rfl)) nofun ?_
      intro spec' w'' how' heq hreplaced
      obtain ⟨rfl, rfl, rfl⟩ := Phase.ended.inj heq
      exact h.ended spec w how hphase hreplaced
  | fails spec ran hphase => exact h.record (by rw [hphase]; rfl) nofun
  | closes spec w how ran hphase =>
      exact h.record (by rw [hphase]; rfl) (h.ended spec w how hphase)
  | rests hphase => exact h.move _ _ (Or.inl rfl) nofun nofun
  | stops hphase => exact h.move _ _ (Or.inl rfl) nofun nofun

/-- At most one run is ever replaced, that is one of llama.cpp, and no later
spec asks for another restart. -/
theorem replaced_at_most_once (cfg : LlmConfig) (host : Host)
    (events : List (Event Seen)) :
    let log := (supervised LlmSpecs.source events (setup cfg host)).log
    (log.filter Record.replaced).length ≤ 1 ∧
      (∀ spec o, .ended spec o ∈ log → o.ended = .replaced →
        spec = llamacppSpec cfg true) ∧
      ∀ before r rest, log = before ++ r :: rest → r.replaced = true →
        ∀ spec, .planned spec ∈ rest → spec.restartWhenHealthy = false := by
  have hinv : ReplacesOnce cfg
      (supervised LlmSpecs.source events (setup cfg host)) := by
    refine run_invariant (p := ReplacesOnce cfg) ?_ events
      (ReplacesOnce.start cfg host)
    intro e s hs
    exact hs.next (next_step LlmSpecs.source e s)
  refine ⟨?_, hinv.replaced, ?_⟩
  · apply length_filter_le_one
    exact hinv.settles.imp fun hr hreplaced => (hr hreplaced).1
  · intro before r rest hlog hreplaced spec hspec
    have hpairwise := hinv.settles
    rw [hlog, List.pairwise_append, List.pairwise_cons] at hpairwise
    exact (hpairwise.2.1.1 _ hspec hreplaced).2

end AssistantHub.Supervision
