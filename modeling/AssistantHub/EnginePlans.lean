import AssistantHub.Engines
import AssistantHub.RunPrefixes

namespace AssistantHub.EnginePlans

open AssistantHub.ChildRuns
open AssistantHub.CrashSteps
open AssistantHub.Engines
open AssistantHub.RunPrefixes
open AssistantHub.Streaks

inductive Ctx where
  | k32
  | k64
  | k128
  | k256
  deriving DecidableEq

def Ctx.label : Ctx → String
  | .k32 => "32k"
  | .k64 => "64k"
  | .k128 => "128k"
  | .k256 => "256k"

structure LlmConfig where
  serverBin : String
  ikBin : String
  engine : EngineChoice
  modelName : String
  family : Family
  device : String
  ctx : Ctx
  internalPort : Nat

/-- `cpuinfo` is the text of /proc/cpuinfo. -/
structure Host where
  cpuinfo : String

/-- `architecture` is the `general.architecture` of the file, if it has one. -/
structure ModelFile where
  architecture : Option String

/-- What one call of `plan` finds on disk: the model file and whether the
ik_llama.cpp binary is there. -/
structure Seen where
  model : Option ModelFile
  ikBinary : Bool

structure LlmSpecs where
  cfg : LlmConfig
  host : Host
  chooser : Chooser
  active : EngineKind
  last : Option EngineKind
  downloadDone : Bool

def setup (cfg : LlmConfig) (host : Host) : LlmSpecs :=
  { cfg := cfg
    host := host
    chooser := Chooser.new
    active := .llamaCpp
    last := none
    downloadDone := false }

def health (cfg : LlmConfig) (timeout : Nat) : Health :=
  { url := s!"http://127.0.0.1:{cfg.internalPort}/health"
    startGrace := secs 900
    interval := secs 30
    timeout := timeout
    failures := 4 }

def LLAMACPP_HEALTH_TIMEOUT : Nat := secs 10

def IK_HEALTH_TIMEOUT : Nat := secs 120

def llamacppSpec (cfg : LlmConfig) (restartWhenHealthy : Bool) : ChildSpec :=
  { name := "llama-server"
    program := cfg.serverBin
    health := some (health cfg LLAMACPP_HEALTH_TIMEOUT)
    restartWhenHealthy := restartWhenHealthy }

def ikSpec (cfg : LlmConfig) : ChildSpec :=
  { name := "llama-server"
    program := cfg.ikBin
    health := some (health cfg IK_HEALTH_TIMEOUT)
    restartWhenHealthy := false }

/-- The first part of `plan`: what the outcome of the last run changes. -/
def LlmSpecs.noted (last : Option RunOutcome) (s : LlmSpecs) : LlmSpecs :=
  { s with
    chooser :=
      match s.last with
      | some kind => s.chooser.note kind last
      | none => s.chooser
    downloadDone :=
      s.downloadDone || last.any fun o => decide (o.ended = .replaced) }

def LlmSpecs.facts (seen : Seen) (s : LlmSpecs) : Facts :=
  { choice := s.cfg.engine
    device := s.cfg.device
    family := s.cfg.family
    architecture := seen.model.bind ModelFile.architecture
    modelOnDisk := seen.model.isSome
    downloadDone := s.downloadDone
    cpuAvx2Fma := hasAvx2Fma s.host.cpuinfo
    ikBinary := seen.ikBinary
    ikBanned := s.chooser.banned }

/-- Chooses the engine and builds its spec. `last` is the outcome of the run
before. -/
def LlmSpecs.plan (last : Option RunOutcome) (seen : Seen) (s : LlmSpecs) :
    (Decision × ChildSpec) × LlmSpecs :=
  let s := s.noted last
  let decision := (s.facts seen).decide
  let spec :=
    match decision.kind, seen.model with
    | .ik, some _ => ikSpec s.cfg
    | _, _ => llamacppSpec s.cfg decision.downloadFirst
  ((decision, spec), { s with last := some decision.kind, active := decision.kind })

/-- The binary of an engine. -/
def LlmConfig.program (cfg : LlmConfig) : EngineKind → String
  | .llamaCpp => cfg.serverBin
  | .ik => cfg.ikBin

theorem decision_plan (last : Option RunOutcome) (seen : Seen) (s : LlmSpecs) :
    (s.plan last seen).1.1 = ((s.noted last).facts seen).decide := rfl

@[simp] theorem cfg_plan (last : Option RunOutcome) (seen : Seen)
    (s : LlmSpecs) : (s.plan last seen).2.cfg = s.cfg := rfl

@[simp] theorem last_plan (last : Option RunOutcome) (seen : Seen)
    (s : LlmSpecs) :
    (s.plan last seen).2.last = some (s.plan last seen).1.1.kind := rfl

@[simp] theorem downloadDone_plan (last : Option RunOutcome) (seen : Seen)
    (s : LlmSpecs) :
    (s.plan last seen).2.downloadDone =
      (s.downloadDone || last.any fun o => decide (o.ended = .replaced)) := rfl

@[simp] theorem chooser_plan (last : Option RunOutcome) (seen : Seen)
    (s : LlmSpecs) : (s.plan last seen).2.chooser = (s.noted last).chooser := rfl

/-- The spec is that of the decision: ik_llama.cpp is only chosen for a model
that is there. -/
theorem spec_plan (last : Option RunOutcome) (seen : Seen) (s : LlmSpecs) :
    (s.plan last seen).1.2 =
      match (s.plan last seen).1.1.kind with
      | .ik => ikSpec s.cfg
      | .llamaCpp => llamacppSpec s.cfg (s.plan last seen).1.1.downloadFirst := by
  rcases hkind : (s.plan last seen).1.1.kind with _ | _
  · rw [decision_plan] at hkind
    simp only [LlmSpecs.plan, hkind]
    rfl
  · rw [decision_plan] at hkind
    have hmodel := modelOnDisk_of_ik hkind
    obtain ⟨model, hmodel⟩ := Option.isSome_iff_exists.mp hmodel
    simp only [LlmSpecs.plan, hkind, hmodel]
    rfl

theorem program_plan (last : Option RunOutcome) (seen : Seen) (s : LlmSpecs) :
    (s.plan last seen).1.2.program =
      s.cfg.program (s.plan last seen).1.1.kind := by
  rw [spec_plan]
  split <;> rename_i hkind <;> rw [hkind] <;> rfl

/-- Only a download of llama.cpp is to be replaced, and none after one is done. -/
theorem of_restartWhenHealthy {last : Option RunOutcome} {seen : Seen}
    {s : LlmSpecs} (h : (s.plan last seen).1.2.restartWhenHealthy = true) :
    (s.plan last seen).1.1.kind = .llamaCpp ∧
      (s.plan last seen).2.downloadDone = false := by
  rw [spec_plan] at h
  split at h
  · cases h
  · exact of_downloadFirst h

/-- A call of `plan`, with the outcome that it gets and what it finds. -/
structure Call where
  last : Option RunOutcome
  seen : Seen

def after (calls : List Call) (s : LlmSpecs) : LlmSpecs :=
  run (fun c s => (s.plan c.last c.seen).2) calls s

/-- The decisions and specs of some calls in a row. -/
def planned : LlmSpecs → List Call → List (Decision × ChildSpec)
  | _, [] => []
  | s, c :: calls =>
      (s.plan c.last c.seen).1 :: planned (s.plan c.last c.seen).2 calls

/-- The outcomes that some calls get, each with the engine that the call before
it decided for, which is `before` for the first one. -/
def attributed : Option EngineKind → LlmSpecs → List Call →
    List (EngineKind × RunOutcome)
  | _, _, [] => []
  | before, s, c :: calls =>
      ((before.bind fun kind => c.last.map fun o => (kind, o)).toList) ++
        attributed (some (s.plan c.last c.seen).1.1.kind)
          (s.plan c.last c.seen).2 calls

/-- The outcomes of the runs that were decided as ik_llama.cpp and not ended to
be replaced. -/
def ikOutcomes (before : Option EngineKind) (s : LlmSpecs) (calls : List Call) :
    List RunOutcome :=
  ((attributed before s calls).filter fun p => counted p.1 p.2).map Prod.snd

/-- Two failures with no good run between them. -/
def TwoFailures (outcomes : List RunOutcome) : Prop :=
  ∃ before first between second rest,
    outcomes = before ++ first :: (between ++ second :: rest) ∧
      failed first = true ∧ failed second = true ∧
        ∀ o ∈ between, good o = false

theorem twoFailures_iff (outcomes : List RunOutcome) :
    TwoFailures outcomes ↔ HasStreak failed MAX_FAILURES outcomes := by
  rw [MAX_FAILURES, hasStreak_two_iff]
  simp only [TwoFailures, failed, Bool.not_eq_true']

theorem follows_noted {s : LlmSpecs} {outcomes : List RunOutcome}
    (h : s.chooser.Follows outcomes) (last : Option RunOutcome) :
    (s.noted last).chooser.Follows
      (outcomes ++ (((s.last.bind fun kind => last.map fun o => (kind, o)).toList.filter
        fun p => counted p.1 p.2).map Prod.snd)) := by
  simp only [LlmSpecs.noted]
  cases s.last with
  | none => simpa using h
  | some kind =>
      cases last with
      | none => simpa [Chooser.note] using h
      | some o =>
          by_cases ho : counted kind o = true
          · simpa [ho] using h.note ho
          · rw [Bool.not_eq_true] at ho
            simpa [ho, note_of_not_counted ho] using h

theorem follows_after {s : LlmSpecs} {outcomes : List RunOutcome}
    (h : s.chooser.Follows outcomes) (calls : List Call) :
    (after calls s).chooser.Follows (outcomes ++ ikOutcomes s.last s calls) := by
  induction calls generalizing s outcomes with
  | nil => simpa [after, run, ikOutcomes, attributed] using h
  | cons c calls ih =>
      have hnext := ih (s := (s.plan c.last c.seen).2)
        (follows_noted h c.last)
      rw [last_plan, List.append_assoc] at hnext
      simpa only [after, run, List.foldl_cons, ikOutcomes, attributed,
        List.filter_append, List.map_append] using hnext

theorem banned_note {c : Chooser} (h : c.banned = true) (kind : EngineKind)
    (outcome : Option RunOutcome) : (c.note kind outcome).banned = true := by
  cases outcome with
  | none => exact h
  | some o =>
      simp only [Chooser.note]
      split
      · exact h
      · split
        · exact h
        · exact Bool.or_eq_true_iff.mpr (Or.inl h)

theorem banned_plan {s : LlmSpecs} (h : s.chooser.banned = true)
    (last : Option RunOutcome) (seen : Seen) :
    (s.plan last seen).2.chooser.banned = true := by
  rw [chooser_plan, LlmSpecs.noted]
  simp only
  split
  · exact banned_note h _ last
  · exact h

/-- A plan of a banned ik_llama.cpp is llama.cpp for good. -/
theorem plan_of_banned {last : Option RunOutcome} {seen : Seen} {s : LlmSpecs}
    (h : (s.plan last seen).2.chooser.banned = true) :
    (s.plan last seen).1.1.kind = .llamaCpp ∧
      (s.plan last seen).1.1.downloadFirst = false ∧
        (s.plan last seen).1.2 = llamacppSpec s.cfg false := by
  obtain ⟨hkind, hdownload⟩ :=
    decide_of_banned (f := (s.noted last).facts seen) h
  rw [← decision_plan] at hkind hdownload
  refine ⟨hkind, hdownload, ?_⟩
  rw [spec_plan, hkind, hdownload]

theorem after_concat (calls : List Call) (c : Call) (s : LlmSpecs) :
    after (calls ++ [c]) s = ((after calls s).plan c.last c.seen).2 :=
  run_concat _ calls c s

theorem cfg_after (calls : List Call) (s : LlmSpecs) :
    (after calls s).cfg = s.cfg := by
  refine run_invariant (p := fun a : LlmSpecs => a.cfg = s.cfg) ?_ calls rfl
  intro c a ha
  exact ha

theorem planned_of_banned {s : LlmSpecs} (h : s.chooser.banned = true)
    (calls : List Call) :
    ∀ p ∈ planned s calls, p.1.kind = .llamaCpp ∧ p.1.downloadFirst = false ∧
      p.2 = llamacppSpec s.cfg false := by
  induction calls generalizing s with
  | nil => exact nofun
  | cons c calls ih =>
      have hnext := banned_plan h c.last c.seen
      intro p hp
      rcases List.mem_cons.mp hp with rfl | hp
      · exact plan_of_banned hnext
      · exact ih hnext p hp

/-- ik_llama.cpp is banned in exactly the histories with two failures of it and
no good run between them, and from the first banned plan on llama.cpp runs. -/
theorem ban_law (cfg : LlmConfig) (host : Host) (calls : List Call) :
    ((after calls (setup cfg host)).chooser.banned = true ↔
        TwoFailures (ikOutcomes none (setup cfg host) calls)) ∧
      ∀ past c rest, calls = past ++ c :: rest →
        (after (past ++ [c]) (setup cfg host)).chooser.banned = true →
          ∀ p ∈ planned (after past (setup cfg host)) (c :: rest),
            p.1.kind = .llamaCpp ∧ p.1.downloadFirst = false ∧
              p.2 = llamacppSpec cfg false := by
  constructor
  · rw [twoFailures_iff]
    exact (follows_after (s := setup cfg host) Chooser.Follows.new calls).banned_iff
  · rintro past c rest - hbanned p hp
    rw [after_concat] at hbanned
    rcases List.mem_cons.mp hp with rfl | hp
    · have hplan := plan_of_banned hbanned
      rw [cfg_after] at hplan
      exact hplan
    · have hrest := planned_of_banned hbanned rest p hp
      rw [cfg_plan, cfg_after] at hrest
      exact hrest

end AssistantHub.EnginePlans
