import AssistantHub.SlotLoop

namespace AssistantHub.LiveCache

open AssistantHub.CrashSteps
open AssistantHub.JsonValue
open AssistantHub.RunPrefixes
open AssistantHub.SlotLoop

/-- One start of the engine: whether a chat request has begun in it, how many
run, and how many restores have arrived and wait. -/
structure Engine where
  begun : Bool
  running : Nat
  waiting : Nat
  deriving DecidableEq

/-- `flying` restores are sent and have not arrived. `replaced` tells whether
one was ever executed in a start in which a chat request had begun. -/
structure System where
  engine : Option Engine
  spawned : Nat
  starts : Nat
  loop : Loop
  /-- The engine's answer to `/slots` on its way to the loop. -/
  report : Option (List Value)
  flying : Nat
  replaced : Bool

inductive Action where
  | spawn
  /-- The supervisor counts the start. -/
  | count
  | exit
  /-- The engine begins a chat request that `LlmProxy::forward` passes to it. -/
  | chat
  | chatEnds
  | cancel
  | wake (checked marked : Nat)
  | report (slots : List Value)
  | told (file : String) (isFile : Bool) (now : Nat)
  /-- Another answer than that to `/slots`, or none. -/
  | answer (answer : Answer) (file : String) (isFile moved : Bool) (now : Nat)
  | arrive
  | lose
  /-- The engine executes a restore. -/
  | execute

def asksSlots : Phase → Bool
  | .busy _ | .picking => true
  | _ => false

def restoring : Phase → Bool
  | .restoring _ _ => true
  | _ => false

def isOk : Answer → Bool
  | .ok _ => true
  | .error _ => false

/-- An action that is not possible changes nothing. The engine tells the truth
about its slots, and executes a restore when no request runs. -/
def act (saveEvery : Nat) (a : Action) (s : System) : System :=
  match a with
  | .spawn =>
      match s.engine with
      | none => { s with engine := some ⟨false, 0, 0⟩, spawned := s.spawned + 1 }
      | some _ => s
  | .count => if s.starts < s.spawned then { s with starts := s.starts + 1 } else s
  | .exit => { s with engine := none }
  | .chat =>
      { s with
        engine := s.engine.map fun e =>
          { e with begun := true, running := e.running + 1 } }
  | .chatEnds =>
      { s with engine := s.engine.map fun e => { e with running := e.running - 1 } }
  | .cancel => { s with loop := step saveEvery .cancel s.loop }
  | .wake checked marked =>
      { s with loop := step saveEvery (.wake s.starts checked marked) s.loop }
  | .report slots =>
      match s.engine with
      | some e =>
          if asksSlots s.loop.phase ∧ s.report.isNone ∧
              slots.any isProcessing = decide (0 < e.running) then
            { s with report := some slots }
          else s
      | none => s
  | .told file isFile now =>
      match s.report with
      | some slots =>
          let loop := step saveEvery
            (.answer (.ok (.array slots)) file isFile false now) s.loop
          { s with
            loop := loop
            report := none
            flying := if restoring loop.phase then s.flying + 1 else s.flying }
      | none => s
  | .answer answer file isFile moved now =>
      if asksSlots s.loop.phase && isOk answer then s
      else
        { s with
          loop := step saveEvery (.answer answer file isFile moved now) s.loop
          report := none }
  | .arrive =>
      match s.engine with
      | some e =>
          if 0 < s.flying then
            { s with
              engine := some { e with waiting := e.waiting + 1 }
              flying := s.flying - 1 }
          else s
      | none => s
  | .lose => { s with flying := s.flying - 1 }
  | .execute =>
      match s.engine with
      | some e =>
          if 0 < e.waiting ∧ e.running = 0 then
            { s with
              engine := some { e with waiting := e.waiting - 1 }
              replaced := s.replaced || e.begun }
          else s
      | none => s

def beginning (saveEvery now : Nat) : System :=
  { engine := none
    spawned := 0
    starts := 0
    loop := begin saveEvery now
    report := none
    flying := 0
    replaced := false }

/-- No chat request begins while a restore is sent or waits, and none has begun
in this start when the loop sends one. -/
def Careful (a : Action) (s : System) : Prop :=
  match a with
  | .chat => ∀ e, s.engine = some e → s.flying = 0 ∧ e.waiting = 0
  | .told _ isFile _ =>
      ∀ start slots e, s.loop.phase = .busy start → s.report = some slots →
        slots.any isProcessing = false → isFile = true → s.engine = some e →
        e.begun = false
  | _ => True

/-- A restore on its way to the engine meets an empty cache. -/
structure Safe (s : System) : Prop where
  kept : s.replaced = false
  fresh : ∀ e, s.engine = some e → 0 < s.flying ∨ 0 < e.waiting → e.begun = false

section Steps

variable {saveEvery : Nat}

theorem busyAnswer_restoring {start : Nat} {slots : List Value} {file : String}
    {isFile : Bool} {now : Nat} {s : Loop} :
    restoring (busyAnswer saveEvery start (.ok (.array slots)) file isFile now s).phase
        = true ↔
      slots.any isProcessing = false ∧ isFile = true := by
  change restoring (if slots.any isProcessing = true then _ else _ : Loop).phase
    = true ↔ _
  split
  · rename_i hbusy
    rw [hbusy]
    simp [Loop.settle, Loop.goto, restoring]
  · rename_i hidle
    rw [eq_false_of_ne_true hidle]
    split
    · rename_i hfile
      simp [Loop.send, Loop.goto, restoring, hfile]
    · rename_i hfile
      simp [Loop.settle, Loop.goto, restoring, hfile]

/-- Only the answer to the check for a running request makes the loop send a
restore. -/
theorem exists_busy_of_restoring {slots : List Value} {file : String}
    {isFile : Bool} {now : Nat} {s : Loop}
    (h : restoring (step saveEvery
      (.answer (.ok (.array slots)) file isFile false now) s).phase = true) :
    ∃ start, s.phase = .busy start ∧ slots.any isProcessing = false ∧
      isFile = true := by
  rw [step.eq_def] at h
  cases hphase : s.phase with
  | busy start =>
      rw [hphase] at h
      exact ⟨start, rfl, busyAnswer_restoring.mp h⟩
  | picking =>
      rw [hphase] at h
      simp only [pickAnswer] at h
      split at h
      · cases h
      · split at h
        · cases h
        · split at h <;> cases h
  | health start =>
      rw [hphase] at h
      simp only [healthAnswer] at h
      split at h <;> cases h
  | sleeping | returned =>
      rw [hphase] at h
      simp only at h
      rw [hphase] at h
      cases h
  | restoring start file' | saving slot =>
      rw [hphase] at h
      cases h

theorem safe_told {s : System} (h : Safe s) {file : String} {isFile : Bool}
    {now : Nat} (hcareful : Careful (.told file isFile now) s) :
    Safe (act saveEvery (.told file isFile now) s) := by
  rw [act]
  split
  · rename_i slots hreport
    refine ⟨h.kept, ?_⟩
    intro e hengine hcoming
    simp only at hengine hcoming
    split at hcoming
    · rename_i hrestoring
      obtain ⟨start, hphase, hidle, hfile⟩ := exists_busy_of_restoring hrestoring
      exact hcareful start slots e hphase hreport hidle hfile hengine
    · exact h.fresh e hengine hcoming
  · exact h

theorem safe_act {s : System} {a : Action} (h : Safe s) (hcareful : Careful a s) :
    Safe (act saveEvery a s) := by
  cases a with
  | spawn =>
      rw [act]
      split
      · refine ⟨h.kept, ?_⟩
        rintro e hengine -
        obtain rfl := Option.some.inj hengine
        rfl
      · exact h
  | exit => exact ⟨h.kept, nofun⟩
  | chat =>
      refine ⟨h.kept, ?_⟩
      intro e hengine hcoming
      obtain ⟨e', he', rfl⟩ := Option.map_eq_some_iff.mp hengine
      have hnone : s.flying = 0 ∧ e'.waiting = 0 := hcareful e' he'
      have hsome : 0 < s.flying ∨ 0 < e'.waiting := hcoming
      omega
  | chatEnds =>
      refine ⟨h.kept, ?_⟩
      intro e hengine hcoming
      obtain ⟨e', he', rfl⟩ := Option.map_eq_some_iff.mp hengine
      exact h.fresh e' he' hcoming
  | told file isFile now => exact safe_told h hcareful
  | arrive =>
      rw [act]
      split
      · rename_i e he
        split
        · rename_i hflying
          refine ⟨h.kept, ?_⟩
          rintro e' hengine -
          obtain rfl := Option.some.inj hengine
          exact h.fresh e he (Or.inl hflying)
        · exact h
      · exact h
  | lose =>
      refine ⟨h.kept, ?_⟩
      intro e hengine hcoming
      have hsome : 0 < s.flying - 1 ∨ 0 < e.waiting := hcoming
      exact h.fresh e hengine (by omega)
  | execute =>
      rw [act]
      split
      · rename_i e he
        split
        · rename_i hready
          have hbegun := h.fresh e he (Or.inr hready.1)
          refine ⟨?_, ?_⟩
          · simp [h.kept, hbegun]
          · rintro e' hengine -
            obtain rfl := Option.some.inj hengine
            exact hbegun
        · exact h
      · exact h
  | count | report | answer =>
      simp only [act]
      repeat' split
      all_goals exact ⟨h.kept, h.fresh⟩
  | cancel | wake => exact ⟨h.kept, h.fresh⟩

theorem exists_replaced_of_waiting {s : System} {e : Engine}
    (hengine : s.engine = some e) (hbegun : e.begun = true) (hwaiting : 0 < e.waiting) :
    ∃ later, (run (act saveEvery) later s).replaced = true := by
  induction hrunning : e.running generalizing s e with
  | zero =>
      refine ⟨[.execute], ?_⟩
      change (act saveEvery .execute s).replaced = true
      simp [act, hengine, hwaiting, hrunning, hbegun]
  | succ running ih =>
      obtain ⟨later, h⟩ := ih (s := act saveEvery .chatEnds s)
        (e := { e with running := e.running - 1 })
        (by simp [act, hengine]) hbegun hwaiting (by simp [hrunning])
      exact ⟨.chatEnds :: later, h⟩

theorem exists_replaced {s : System} {e : Engine} (hengine : s.engine = some e)
    (hbegun : e.begun = true) (hcoming : 0 < s.flying ∨ 0 < e.waiting) :
    ∃ later, (run (act saveEvery) later s).replaced = true := by
  rcases hcoming with hflying | hwaiting
  · have harrives : (act saveEvery .arrive s).engine =
        some { e with waiting := e.waiting + 1 } := by
      simp [act, hengine, hflying]
    obtain ⟨later, h⟩ :=
      exists_replaced_of_waiting harrives hbegun (Nat.succ_pos _)
    exact ⟨.arrive :: later, h⟩
  · exact exists_replaced_of_waiting hengine hbegun hwaiting

theorem exists_replaced_of_not_careful {s : System} {a : Action}
    (h : ¬Careful a s) :
    ∃ later, (run (act saveEvery) (a :: later) s).replaced = true := by
  cases a with
  | chat =>
      simp only [Careful, not_forall] at h
      obtain ⟨e, he, hcoming⟩ := h
      exact exists_replaced (s := act saveEvery .chat s)
        (e := { e with begun := true, running := e.running + 1 })
        (by simp [act, he]) rfl (by simp only [act]; omega)
  | told file isFile now =>
      simp only [Careful, not_forall] at h
      obtain ⟨start, slots, e, hphase, hreport, hidle, hfile, he, hbegun⟩ := h
      have hrestoring : restoring (step saveEvery
          (.answer (.ok (.array slots)) file isFile false now) s.loop).phase = true := by
        rw [step.eq_def, hphase]
        exact busyAnswer_restoring.mpr ⟨hidle, hfile⟩
      exact exists_replaced (s := act saveEvery (.told file isFile now) s) (e := e)
        (by simp [act, hreport, he]) (eq_true_of_ne_false hbegun)
        (by simp [act, hreport, hrestoring])
  | _ => exact absurd trivial h

end Steps

theorem safe_beginning (saveEvery now : Nat) : Safe (beginning saveEvery now) :=
  ⟨rfl, nofun⟩

/-- In a run in which every step is careful no live cache is replaced. After any
other step the run can go on so that one is. -/
theorem replaced_of_steps (saveEvery now : Nat) (actions : List Action) :
    ((∀ past a, past ++ [a] <+: actions →
        Careful a (run (act saveEvery) past (beginning saveEvery now))) →
      ∀ past, past <+: actions →
        (run (act saveEvery) past (beginning saveEvery now)).replaced = false) ∧
    ∀ past a, past ++ [a] <+: actions →
      ¬Careful a (run (act saveEvery) past (beginning saveEvery now)) →
      ∃ later, (run (act saveEvery) (past ++ a :: later)
        (beginning saveEvery now)).replaced = true := by
  constructor
  · intro hcareful past hpast
    have hsafe : Safe (run (act saveEvery) past (beginning saveEvery now)) := by
      revert past
      apply prefix_induct
      · exact safe_beginning saveEvery now
      · intro past a hpast ih
        rw [run_concat]
        exact safe_act ih (hcareful past a hpast)
    exact hsafe.kept
  · intro past a _ hcareless
    obtain ⟨later, h⟩ := exists_replaced_of_not_careful hcareless
    exact ⟨later, (congrArg System.replaced (run_append _ _ _ _)).trans h⟩

def slot (busy : Bool) : Value :=
  .object [("id", .number (.posInt 0)), ("is_processing", .bool busy)]

def ok : Answer := .ok (.object [("status", .string "ok")])

/-- The engine starts, and the loop asks for its health. -/
def started : List Action :=
  [.spawn, .count, .wake 1000 1000, .answer ok "m.slot" true false 1001]

/-- The restore is executed before the first chat request. -/
def restoredFirst : List Action :=
  started ++ [.report [slot false], .told "m.slot" true 1003, .arrive, .execute,
    .chat]

theorem replaced_of_steps_restoredFirst :
    (run (act 300000) restoredFirst (beginning 300000 0)).replaced = false := by
  refine (replaced_of_steps 300000 0 restoredFirst).1 ?_ restoredFirst
    (List.prefix_refl _)
  simp only [restoredFirst, started, List.cons_append, List.nil_append,
    forall_steps_cons]
  refine ⟨trivial, trivial, trivial, trivial, trivial, ?_, trivial, trivial, ?_,
    forall_steps_nil⟩
  · rintro start slots e - - - - hengine
    obtain rfl := Option.some.inj hengine
    rfl
  · rintro e hengine
    obtain rfl := Option.some.inj hengine
    exact ⟨rfl, rfl⟩

/-- A chat request has come and gone when the loop asks for the slots. -/
def chatBeforeCheck : List Action :=
  started ++ [.chat, .chatEnds, .report [slot false], .told "m.slot" true 1003,
    .arrive, .execute]

/-- The request comes after the engine's answer and before the restore. -/
def chatAfterCheck : List Action :=
  started ++ [.report [slot false], .chat, .told "m.slot" true 1003, .arrive,
    .chatEnds, .execute]

theorem replaced_chatBeforeCheck :
    (run (act 300000) chatBeforeCheck (beginning 300000 0)).replaced = true ∧
      (run (act 300000) chatAfterCheck (beginning 300000 0)).replaced = true :=
  ⟨rfl, rfl⟩

end AssistantHub.LiveCache
