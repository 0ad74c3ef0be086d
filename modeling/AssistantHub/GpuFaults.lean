import AssistantHub.RunPrefixes
import AssistantHub.Streaks
import AssistantHub.UnicodeText
import Mathlib.Algebra.Group.Nat.Defs
import Mathlib.Data.List.Infix
import Mathlib.Data.List.Nodup

namespace AssistantHub.GpuFaults

open AssistantHub.CrashSteps
open AssistantHub.RunPrefixes
open AssistantHub.Streaks
open AssistantHub.UnicodeText

/-- The speech engine that reports a result. -/
inductive Speech where
  | stt
  | tts
  deriving DecidableEq, Repr

/-- The counter of the faults and the token that a lost GPU cancels. -/
structure Gpu where
  faults : UInt32
  lost : Bool
  sttOnGpu : Bool
  ttsOnGpu : Bool

def Gpu.new (sttOnGpu ttsOnGpu : Bool) : Gpu :=
  { faults := 0, lost := false, sttOnGpu, ttsOnGpu }

def faultSigns : List String :=
  ["device lost", "devicelost", "context is lost", "http error 500", "timed out",
    "timeout"]

def faultThreshold : UInt32 := 3

variable (u : Unicode)

def hasFaultSign (err : String) : Bool :=
  faultSigns.any fun s => decide (s.toList <:+: u.toLowercase err.toList)

def Gpu.onGpu (engine : Speech) (g : Gpu) : Bool :=
  match engine with
  | .stt => g.sttOnGpu
  | .tts => g.ttsOnGpu

def Gpu.success (engine : Speech) (g : Gpu) : Gpu :=
  if g.onGpu engine then { g with faults := 0 } else g

def Gpu.failure (engine : Speech) (err : String) (g : Gpu) : Gpu :=
  if g.onGpu engine && hasFaultSign u err then
    let count := g.faults + 1
    { g with faults := count, lost := g.lost || decide (count ≥ faultThreshold) }
  else g

/-- What an engine has made of a call. -/
abbrev Outcome := Except String Unit

def Gpu.note (engine : Speech) (outcome : Outcome) (g : Gpu) : Gpu :=
  match outcome with
  | .ok () => g.success engine
  | .error err => g.failure u engine err

/-- A call of an engine. The lock of a transcription ends with the blocking
task, before its result is reported; that of a synthesis after it. -/
inductive Call where
  | idle
  | waiting (engine : Speech)
  | running (engine : Speech)
  | reporting (engine : Speech) (outcome : Outcome)
  | gone

/-- The call holds the lock. -/
def Call.holds : Call → Bool
  | .running _ => true
  | .reporting .tts _ => true
  | _ => false

structure Hub where
  gpu : Gpu
  holder : Option Nat
  calls : Nat → Call
  /-- What has been reported, the newest last. -/
  reports : List (Nat × Speech × Outcome)

def Hub.start (sttOnGpu ttsOnGpu : Bool) : Hub :=
  { gpu := Gpu.new sttOnGpu ttsOnGpu, holder := none, calls := fun _ => .idle,
    reports := [] }

def Hub.setCall (r : Nat) (call : Call) (h : Hub) : Hub :=
  { h with calls := fun r' => if r' = r then call else h.calls r' }

inductive Act where
  | ask (r : Nat) (engine : Speech)
  | acquire (r : Nat)
  /-- The lock was not free within 20 s. -/
  | giveUp (r : Nat)
  | finish (r : Nat) (outcome : Outcome)
  /-- The call panics: the lock ends, nothing is reported. -/
  | crash (r : Nat)
  | report (r : Nat)

/-- The effect of an action; none, where the call is not at it. -/
def act (a : Act) (h : Hub) : Hub :=
  match a with
  | .ask r engine =>
      match h.calls r with
      | .idle => h.setCall r (.waiting engine)
      | _ => h
  | .acquire r =>
      match h.calls r, h.holder with
      | .waiting engine, none => { h.setCall r (.running engine) with holder := some r }
      | _, _ => h
  | .giveUp r =>
      match h.calls r with
      | .waiting _ => h.setCall r .gone
      | _ => h
  | .finish r outcome =>
      match h.calls r with
      | .running .stt => { h.setCall r (.reporting .stt outcome) with holder := none }
      | .running .tts => h.setCall r (.reporting .tts outcome)
      | _ => h
  | .crash r =>
      match h.calls r with
      | .running _ => { h.setCall r .gone with holder := none }
      | _ => h
  | .report r =>
      match h.calls r with
      | .reporting engine outcome =>
          { h.setCall r .gone with
            gpu := h.gpu.note u engine outcome
            holder := if engine = .tts then none else h.holder
            reports := h.reports ++ [(r, engine, outcome)] }
      | _ => h

/-- What an action does to the call that it is for. -/
inductive Moves (h : Hub) : Hub → Prop where
  | none : Moves h h
  | ask {r : Nat} {engine : Speech} : h.calls r = .idle →
      Moves h (h.setCall r (.waiting engine))
  | acquire {r : Nat} {engine : Speech} : h.calls r = .waiting engine → h.holder = none →
      Moves h { h.setCall r (.running engine) with holder := some r }
  | giveUp {r : Nat} {engine : Speech} : h.calls r = .waiting engine →
      Moves h (h.setCall r .gone)
  | heard {r : Nat} {outcome : Outcome} : h.calls r = .running .stt →
      Moves h { h.setCall r (.reporting .stt outcome) with holder := none }
  | spoken {r : Nat} {outcome : Outcome} : h.calls r = .running .tts →
      Moves h (h.setCall r (.reporting .tts outcome))
  | crash {r : Nat} {engine : Speech} : h.calls r = .running engine →
      Moves h { h.setCall r .gone with holder := none }
  | report {r : Nat} {engine : Speech} {outcome : Outcome} :
      h.calls r = .reporting engine outcome →
      Moves h
        { h.setCall r .gone with
          gpu := h.gpu.note u engine outcome
          holder := if engine = .tts then none else h.holder
          reports := h.reports ++ [(r, engine, outcome)] }

theorem moves_act (a : Act) (h : Hub) : Moves u h (act u a h) := by
  rcases a with ⟨r, engine⟩ | r | r | ⟨r, outcome⟩ | r | r
  · rw [act]
    split
    · rename_i hcall
      exact .ask hcall
    · exact .none
  · rw [act]
    split
    · rename_i hcall hholder
      exact .acquire hcall hholder
    · exact .none
  · rw [act]
    split
    · rename_i hcall
      exact .giveUp hcall
    · exact .none
  · rw [act]
    split
    · rename_i hcall
      exact .heard hcall
    · rename_i hcall
      exact .spoken hcall
    · exact .none
  · rw [act]
    split
    · rename_i hcall
      exact .crash hcall
    · exact .none
  · rw [act]
    split
    · rename_i hcall
      exact .report hcall
    · exact .none

section Steps

variable {u} {h : Hub} {r : Nat} {engine : Speech} {outcome : Outcome}

theorem calls_setCall (r : Nat) (call : Call) (h : Hub) (r' : Nat) :
    (h.setCall r call).calls r' = if r' = r then call else h.calls r' := rfl

theorem act_ask (hcall : h.calls r = .idle) :
    act u (.ask r engine) h = h.setCall r (.waiting engine) := by
  simp only [act, hcall]

theorem act_acquire (hcall : h.calls r = .waiting engine) (hholder : h.holder = none) :
    act u (.acquire r) h = { h.setCall r (.running engine) with holder := some r } := by
  simp only [act, hcall, hholder]

theorem act_finish_tts (hcall : h.calls r = .running .tts) :
    act u (.finish r outcome) h = h.setCall r (.reporting .tts outcome) := by
  simp only [act, hcall]

theorem act_report (hcall : h.calls r = .reporting engine outcome) :
    act u (.report r) h =
      { h.setCall r .gone with
        gpu := h.gpu.note u engine outcome
        holder := if engine = .tts then none else h.holder
        reports := h.reports ++ [(r, engine, outcome)] } := by
  simp only [act, hcall]

end Steps

section Exclusion

variable {u}

/-- The lock is held by the call that is said to hold it, and by no other. -/
def Exclusive (h : Hub) : Prop :=
  ∀ r, (h.calls r).holds = true ↔ h.holder = some r

theorem Exclusive.keep {h : Hub} (hh : Exclusive h) {r : Nat} {call : Call}
    (hcall : call.holds = (h.calls r).holds) : Exclusive (h.setCall r call) := by
  intro r'
  rw [calls_setCall]
  split
  · rename_i heq
    rw [heq, hcall]
    exact hh r
  · exact hh r'

theorem Exclusive.release {h h' : Hub} (hh : Exclusive h) {r : Nat} {call : Call}
    (hheld : (h.calls r).holds = true) (hcall : call.holds = false)
    (hcalls : h'.calls = (h.setCall r call).calls) (hholder : h'.holder = none) :
    Exclusive h' := by
  intro r'
  rw [hcalls, hholder, calls_setCall]
  split
  · exact iff_of_false (by rw [hcall]; exact Bool.false_ne_true) nofun
  · rename_i hne
    refine iff_of_false ?_ nofun
    intro hother
    have hsame := (hh r').mp hother
    rw [(hh r).mp hheld] at hsame
    exact hne (Option.some.inj hsame).symm

theorem exclusive_of_moves {h h' : Hub} (hmoves : Moves u h h') (hh : Exclusive h) :
    Exclusive h' := by
  rcases hmoves with _ | hcall | ⟨hcall, hholder⟩ | hcall | hcall | hcall | hcall | hcall
  · exact hh
  · exact hh.keep (by rw [hcall]; rfl)
  · rename_i r engine
    intro r'
    show ((h.setCall r _).calls r').holds = true ↔ some r = some r'
    rw [calls_setCall]
    split
    · rename_i heq
      rw [heq]
      exact iff_of_true rfl rfl
    · rename_i hne
      rw [hh r', hholder]
      exact iff_of_false nofun fun heq => hne (Option.some.inj heq).symm
  · exact hh.keep (by rw [hcall]; rfl)
  · exact hh.release (by rw [hcall]; rfl) rfl rfl rfl
  · exact hh.keep (by rw [hcall]; rfl)
  · exact hh.release (by rw [hcall]; rfl) rfl rfl rfl
  · rename_i r engine outcome
    rcases engine with _ | _
    · exact @Exclusive.keep h hh r .gone (by rw [hcall]; rfl)
    · exact hh.release (by rw [hcall]; rfl) rfl rfl rfl

theorem exclusive_run (acts : List Act) (sttOnGpu ttsOnGpu : Bool) :
    Exclusive (run (act u) acts (.start sttOnGpu ttsOnGpu)) := by
  apply run_invariant (p := Exclusive)
  · intro a h
    exact exclusive_of_moves (moves_act u a h)
  · intro r
    exact iff_of_false Bool.false_ne_true nofun

end Exclusion

section Counting

/-- Whether a report is a fault of the GPU, if it says something of the GPU. -/
def counted (sttOnGpu ttsOnGpu : Bool) (report : Nat × Speech × Outcome) : Option Bool :=
  if (Gpu.new sttOnGpu ttsOnGpu).onGpu report.2.1 then
    match report.2.2 with
    | .ok () => some false
    | .error err => if hasFaultSign u err then some true else none
  else none

/-- The counter is the number of faults since the last success, and the token is
cancelled since there were three in a row. -/
structure Counts (sttOnGpu ttsOnGpu : Bool) (h : Hub) : Prop where
  stt_eq : h.gpu.sttOnGpu = sttOnGpu
  tts_eq : h.gpu.ttsOnGpu = ttsOnGpu
  faults_eq : h.gpu.faults.toNat =
    streak id (h.reports.filterMap (counted u sttOnGpu ttsOnGpu)) % 2 ^ 32
  lost_iff : h.gpu.lost = true ↔
    HasStreak id 3 (h.reports.filterMap (counted u sttOnGpu ttsOnGpu))

variable {u} {sttOnGpu ttsOnGpu : Bool} {h : Hub}

theorem Counts.onGpu_eq (hh : Counts u sttOnGpu ttsOnGpu h) (engine : Speech) :
    h.gpu.onGpu engine = (Gpu.new sttOnGpu ttsOnGpu).onGpu engine := by
  rcases engine with _ | _
  · exact hh.stt_eq
  · exact hh.tts_eq

theorem counts_start (sttOnGpu ttsOnGpu : Bool) :
    Counts u sttOnGpu ttsOnGpu (.start sttOnGpu ttsOnGpu) where
  stt_eq := rfl
  tts_eq := rfl
  faults_eq := rfl
  lost_iff := iff_of_false Bool.false_ne_true (not_hasStreak_nil id 2)

theorem Counts.congr {h' : Hub} (hh : Counts u sttOnGpu ttsOnGpu h)
    (hgpu : h'.gpu = h.gpu)
    (hreports : h'.reports.filterMap (counted u sttOnGpu ttsOnGpu) =
      h.reports.filterMap (counted u sttOnGpu ttsOnGpu)) :
    Counts u sttOnGpu ttsOnGpu h' := by
  obtain ⟨hstt, htts, hfaults, hlost⟩ := hh
  constructor
  · rw [hgpu, hstt]
  · rw [hgpu, htts]
  · rw [hgpu, hreports, hfaults]
  · rw [hgpu, hreports, hlost]

theorem toNat_add_one (n : UInt32) : (n + 1).toNat = (n.toNat + 1) % 2 ^ 32 := by
  rw [UInt32.toNat_add]
  rfl

/-- The counter reaches the threshold just where the faults do, however often it
has wrapped. -/
theorem threshold_iff {l : List Bool} {n : UInt32} {lost : Bool}
    (hn : n.toNat = streak id l % 2 ^ 32) (hlost : lost = true ↔ HasStreak id 3 l) :
    (lost || decide (n + 1 ≥ faultThreshold)) = true ↔ HasStreak id 3 (l ++ [true]) := by
  have hcount : (n + 1).toNat = (streak id l + 1) % 2 ^ 32 := by
    rw [toNat_add_one, hn]
    omega
  have hge : n + 1 ≥ faultThreshold ↔ 3 ≤ (n + 1).toNat := UInt32.le_iff_toNat_le
  rw [hasStreak_concat, streak_concat, if_pos (show id true = true from rfl),
    Bool.or_eq_true, decide_eq_true_eq, hlost, hge, hcount]
  constructor
  · rintro (hstreak | hthree)
    · exact Or.inl hstreak
    · refine Or.inr ?_
      have hle := Nat.mod_le (streak id l + 1) (2 ^ 32)
      omega
  · rintro (hstreak | hthree)
    · exact Or.inl hstreak
    · by_cases hbefore : 3 ≤ streak id l
      · obtain ⟨m, hsuffix, hlength, hall⟩ := (le_streak_iff id).mp hbefore
        exact Or.inl ⟨m, hsuffix.isInfix, hlength, hall⟩
      · refine Or.inr ?_
        rw [Nat.mod_eq_of_lt (by omega)]
        exact hthree

theorem Counts.fault {h' : Hub} (hh : Counts u sttOnGpu ttsOnGpu h)
    (hgpu : h'.gpu =
      { h.gpu with
        faults := h.gpu.faults + 1
        lost := h.gpu.lost || decide (h.gpu.faults + 1 ≥ faultThreshold) })
    (hreports : h'.reports.filterMap (counted u sttOnGpu ttsOnGpu) =
      h.reports.filterMap (counted u sttOnGpu ttsOnGpu) ++ [true]) :
    Counts u sttOnGpu ttsOnGpu h' := by
  obtain ⟨hstt, htts, hfaults, hlost⟩ := hh
  constructor
  · rw [hgpu, ← hstt]
  · rw [hgpu, ← htts]
  · rw [hgpu, hreports, streak_concat, if_pos (show id true = true from rfl)]
    change (h.gpu.faults + 1).toNat = _
    rw [toNat_add_one, hfaults]
    omega
  · rw [hgpu, hreports]
    exact threshold_iff hfaults hlost

theorem Counts.recovered {h' : Hub} (hh : Counts u sttOnGpu ttsOnGpu h)
    (hgpu : h'.gpu = { h.gpu with faults := 0 })
    (hreports : h'.reports.filterMap (counted u sttOnGpu ttsOnGpu) =
      h.reports.filterMap (counted u sttOnGpu ttsOnGpu) ++ [false]) :
    Counts u sttOnGpu ttsOnGpu h' := by
  obtain ⟨hstt, htts, hfaults, hlost⟩ := hh
  have hzero : streak id (h.reports.filterMap (counted u sttOnGpu ttsOnGpu) ++ [false]) =
      0 := by
    rw [streak_concat]
    rfl
  constructor
  · rw [hgpu, ← hstt]
  · rw [hgpu, ← htts]
  · rw [hgpu, hreports, hzero]
    rfl
  · rw [hgpu, hreports, hasStreak_concat, hzero, ← hlost]
    simp

theorem Counts.report {h' : Hub} (hh : Counts u sttOnGpu ttsOnGpu h) {r : Nat}
    {engine : Speech} {outcome : Outcome} (hgpu : h'.gpu = h.gpu.note u engine outcome)
    (hreports : h'.reports = h.reports ++ [(r, engine, outcome)]) :
    Counts u sttOnGpu ttsOnGpu h' := by
  have honGpu := hh.onGpu_eq engine
  have hlist : h'.reports.filterMap (counted u sttOnGpu ttsOnGpu) =
      h.reports.filterMap (counted u sttOnGpu ttsOnGpu) ++
        (counted u sttOnGpu ttsOnGpu (r, engine, outcome)).toList := by
    rw [hreports, List.filterMap_append]
    cases hcounted : counted u sttOnGpu ttsOnGpu (r, engine, outcome) <;> simp [hcounted]
  by_cases hon : (Gpu.new sttOnGpu ttsOnGpu).onGpu engine = true
  · rcases outcome with err | _
    · by_cases hsign : hasFaultSign u err = true
      · refine hh.fault ?_ ?_
        · rw [hgpu, Gpu.note, Gpu.failure, honGpu, hon, hsign]
          rfl
        · simpa [counted, hon, hsign] using hlist
      · refine hh.congr ?_ ?_
        · simp [hgpu, Gpu.note, Gpu.failure, hsign]
        · simpa [counted, hsign] using hlist
    · refine hh.recovered ?_ ?_
      · simp [hgpu, Gpu.note, Gpu.success, honGpu, hon]
      · simpa [counted, hon] using hlist
  · refine hh.congr ?_ ?_
    · rcases outcome with err | _
      · simp [hgpu, Gpu.note, Gpu.failure, honGpu, hon]
      · simp [hgpu, Gpu.note, Gpu.success, honGpu, hon]
    · simpa [counted, hon] using hlist

theorem counts_of_moves {h' : Hub} (hmoves : Moves u h h')
    (hh : Counts u sttOnGpu ttsOnGpu h) : Counts u sttOnGpu ttsOnGpu h' := by
  rcases hmoves with _ | _ | _ | _ | _ | _ | _ | _
  · exact hh
  · exact hh.congr rfl rfl
  · exact hh.congr rfl rfl
  · exact hh.congr rfl rfl
  · exact hh.congr rfl rfl
  · exact hh.congr rfl rfl
  · exact hh.congr rfl rfl
  · exact hh.report rfl rfl

theorem counts_run (acts : List Act) (sttOnGpu ttsOnGpu : Bool) :
    Counts u sttOnGpu ttsOnGpu (run (act u) acts (.start sttOnGpu ttsOnGpu)) := by
  apply run_invariant (p := Counts u sttOnGpu ttsOnGpu)
  · intro a h
    exact counts_of_moves (moves_act u a h)
  · exact counts_start sttOnGpu ttsOnGpu

end Counting

section Reports

variable {u}

/-- A call that has been reported is over. -/
structure ReportedOnce (h : Hub) : Prop where
  nodup : (h.reports.map Prod.fst).Nodup
  ended : ∀ r ∈ h.reports.map Prod.fst, h.calls r = .gone

theorem ReportedOnce.keep {h h' : Hub} (hh : ReportedOnce h) {r : Nat} {call : Call}
    (hr : h.calls r ≠ .gone) (hcalls : h'.calls = (h.setCall r call).calls)
    (hreports : h'.reports = h.reports) : ReportedOnce h' := by
  refine ⟨by rw [hreports]; exact hh.nodup, ?_⟩
  intro r' hr'
  rw [hreports] at hr'
  rw [hcalls, calls_setCall, if_neg]
  · exact hh.ended r' hr'
  · rintro rfl
    exact hr (hh.ended r' hr')

theorem reportedOnce_of_moves {h h' : Hub} (hmoves : Moves u h h') (hh : ReportedOnce h) :
    ReportedOnce h' := by
  rcases hmoves with _ | hcall | ⟨hcall, -⟩ | hcall | hcall | hcall | hcall | hcall
  · exact hh
  · exact hh.keep (by rw [hcall]; nofun) rfl rfl
  · exact hh.keep (by rw [hcall]; nofun) rfl rfl
  · exact hh.keep (by rw [hcall]; nofun) rfl rfl
  · exact hh.keep (by rw [hcall]; nofun) rfl rfl
  · exact hh.keep (by rw [hcall]; nofun) rfl rfl
  · exact hh.keep (by rw [hcall]; nofun) rfl rfl
  · rename_i r engine outcome
    have hnew : r ∉ h.reports.map Prod.fst := by
      intro hr
      have hgone := hh.ended r hr
      rw [hcall] at hgone
      cases hgone
    constructor
    · show ((h.reports ++ [(r, engine, outcome)]).map Prod.fst).Nodup
      rw [List.map_append, List.map_singleton, ← List.concat_eq_append]
      exact (List.nodup_concat _ _).mpr ⟨hnew, hh.nodup⟩
    · intro r' hr'
      rw [List.map_append, List.map_singleton, List.mem_append] at hr'
      show (h.setCall r .gone).calls r' = .gone
      rw [calls_setCall]
      split
      · rfl
      · rename_i hne
        rcases hr' with hr' | hr'
        · exact hh.ended r' hr'
        · exact absurd (List.mem_singleton.mp hr') hne

end Reports

/-- Whatever order the calls of the engines come and go in: one of them at most
has the GPU, each reports at most once, and the hub gives the GPU up just when
three of the reports in a row, of those that say something of it, were faults. -/
theorem gpu_lost_iff (sttOnGpu ttsOnGpu : Bool) (acts : List Act) :
    let h := run (act u) acts (.start sttOnGpu ttsOnGpu)
    (∀ r r', (h.calls r).holds = true → (h.calls r').holds = true → r = r') ∧
      (h.reports.map Prod.fst).Nodup ∧
      (h.gpu.lost = true ↔
        HasStreak id 3 (h.reports.filterMap (counted u sttOnGpu ttsOnGpu))) := by
  intro h
  have hexclusive : Exclusive h := exclusive_run acts sttOnGpu ttsOnGpu
  have honce : ReportedOnce h := by
    apply run_invariant (p := ReportedOnce)
    · intro a s
      exact reportedOnce_of_moves (moves_act u a s)
    · exact ⟨List.nodup_nil, nofun⟩
  have hcounts : Counts u sttOnGpu ttsOnGpu h := counts_run acts sttOnGpu ttsOnGpu
  refine ⟨?_, honce.nodup, hcounts.lost_iff⟩
  intro r r' hr hr'
  have hsame := (hexclusive r).mp hr
  rw [(hexclusive r').mp hr'] at hsame
  exact (Option.some.inj hsame).symm

end AssistantHub.GpuFaults
