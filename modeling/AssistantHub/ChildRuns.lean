import Mathlib.Data.List.Basic

namespace AssistantHub.ChildRuns

/-- Times are in nanoseconds. -/
def secs (n : Nat) : Nat := n * 1000000000

structure Health where
  url : String
  startGrace : Nat
  interval : Nat
  timeout : Nat
  failures : Nat

structure ChildSpec where
  name : String
  program : String
  health : Option Health
  restartWhenHealthy : Bool

inductive Ended where
  | exited
  | hung
  | replaced
  | spawnFailed
  deriving DecidableEq

/-- `healthy` says that the child answered a health probe at least once. -/
structure RunOutcome where
  ended : Ended
  healthy : Bool
  ran : Nat
  deriving DecidableEq

/-- The watcher of one child with the `RunState` that it shares with the
supervisor. It returns when it cancels `fatal`. -/
structure Watch where
  seenHealthy : Bool
  failed : Nat
  healthy : Bool
  replace : Bool
  fatal : Bool

def Watch.start : Watch :=
  { seenHealthy := false, failed := 0, healthy := false, replace := false,
    fatal := false }

/-- One probe of `watch`, which ends at the time `elapsed` of the run. -/
def Watch.probe (health : Health) (restartWhenHealthy : Bool) (elapsed : Nat)
    (ok : Bool) (w : Watch) : Watch :=
  if w.fatal then w
  else if ok then
    if w.seenHealthy then { w with failed := 0 }
    else if restartWhenHealthy then
      { w with
        seenHealthy := true
        healthy := true
        replace := true
        fatal := true }
    else { w with seenHealthy := true, healthy := true, failed := 0 }
  else if w.seenHealthy = false ∧ elapsed < health.startGrace then w
  else
    { w with
      failed := w.failed + 1
      fatal := decide (w.failed + 1 ≥ health.failures) }

/-- How the supervisor names the end of a run that it stops itself. -/
def Watch.ended (w : Watch) : Ended := if w.replace then .replaced else .hung

/-- Only a child that is to be restarted at its first good answer is replaced. -/
theorem replace_probe {health : Health} {restartWhenHealthy : Bool}
    {elapsed : Nat} {ok : Bool} {w : Watch}
    (h : (w.probe health restartWhenHealthy elapsed ok).replace = true) :
    w.replace = true ∨ restartWhenHealthy = true := by
  rw [Watch.probe] at h
  split at h
  · exact Or.inl h
  · split at h
    · split at h
      · exact Or.inl h
      · split at h
        · rename_i hrestart
          exact Or.inr hrestart
        · exact Or.inl h
    · split at h
      · exact Or.inl h
      · exact Or.inl h

end AssistantHub.ChildRuns
