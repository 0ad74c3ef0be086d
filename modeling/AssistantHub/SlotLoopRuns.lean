import AssistantHub.SlotLoop

namespace AssistantHub.SlotLoopRuns

open AssistantHub.CrashSteps
open AssistantHub.Histories
open AssistantHub.JsonValue
open AssistantHub.RunPrefixes
open AssistantHub.SlotLoop

def lastLook : List Event → Option Nat :=
  latest fun
    | .look start => some start
    | _ => none

/-- The start that was settled last. 0 is none yet. -/
def lastSettled (log : List Event) : Nat :=
  (latest (fun
    | Event.settled start _ => some start
    | _ => none) log).getD 0

/-- The time of the last settling or save attempt. -/
def lastMark : List Event → Option Nat :=
  latest fun
    | .settled _ now => some now
    | .due _ marked => some marked
    | _ => none

/-- The task of the last successful save since the last settling. -/
def lastSaved (log : List Event) : Option Int :=
  (latest (fun
    | Event.settled _ _ => some none
    | .saved task => some task
    | _ => none) log).getD none

/-- An iteration of the loop so far: the counter differs from the last settled
one, `/health` says ok, and `/slots` shows no busy slot. -/
def RestoreDue (past : List Event) : Prop :=
  ∃ before start slots,
    past = before ++ [.look start, .send .health, .health true, .send .slots,
      .slots (some slots)] ∧
    start ≠ lastSettled before ∧ slots.any isProcessing = false

/-- The slot with the largest task among those with an Assist-sized prompt. -/
def Largest (slots : List Value) (slot : Value) : Prop :=
  slot ∈ slots ∧ minTokens ≤ promptTokens slot ∧
    ∀ other ∈ slots, minTokens ≤ promptTokens other →
      taskNumber other ≤ taskNumber slot

/-- An iteration of the loop so far: the counter is the last settled one, the
time has come, no slot is busy, and one is worth a save. -/
def SaveDue (saveEvery : Nat) (past : List Event) (id : Int) : Prop :=
  ∃ before start checked marked slots slot,
    past = before ++ [.look start, .due checked marked, .send .slots,
      .slots (some slots)] ∧
    start = lastSettled before ∧ start ≠ 0 ∧
    (∃ mark, lastMark before = some mark ∧ mark + saveEvery ≤ checked) ∧
    slots.any isProcessing = false ∧ Largest slots slot ∧
    (slot.index "id").asI64 = some id ∧ idTask slot ≠ lastSaved before

structure LoopLaw (saveEvery : Nat) (log : List Event) : Prop where
  restore_due : ∀ past file, past ++ [.send (.restore file)] <+: log →
    RestoreDue past
  /-- Between a settled start and a restore the counter has changed. -/
  restore_once : ∀ past start now later file,
    past ++ .settled start now :: later ++ [.send (.restore file)] <+: log →
    ∃ start', start' ≠ start ∧ .look start' ∈ later
  quiet_at_zero : ∀ past call, past ++ [.send call] <+: log →
    lastLook past = some 0 → ∃ start now, .settled start now ∈ past ∧ start ≠ 0
  save_due : ∀ past id file, past ++ [.send (.save id file)] <+: log →
    SaveDue saveEvery past id

/-- What the loop may do after a history. -/
def Allowed (saveEvery : Nat) (past : List Event) : Event → Prop
  | .send call =>
      (lastLook past = some 0 → ∃ start now, .settled start now ∈ past ∧ start ≠ 0) ∧
        match call with
        | .restore _ => RestoreDue past
        | .save id _ => SaveDue saveEvery past id
        | _ => True
  | .settled start _ => lastLook past = some start
  | _ => True

/-- How far the iteration is in which the loop waits. -/
def Reached (saveEvery : Nat) (log : List Event) (lastTask : Option Int) :
    Phase → Prop
  | .health start =>
      ∃ before, log = before ++ [.look start, .send .health] ∧
        start ≠ lastSettled before
  | .busy start =>
      ∃ before, log = before ++ [.look start, .send .health, .health true,
          .send .slots] ∧
        start ≠ lastSettled before
  | .restoring start _ => lastLook log = some start
  | .picking =>
      ∃ before start checked marked,
        log = before ++ [.look start, .due checked marked, .send .slots] ∧
        start = lastSettled before ∧ start ≠ 0 ∧
        (∃ mark, lastMark before = some mark ∧ mark + saveEvery ≤ checked) ∧
        lastTask = lastSaved before
  | .sleeping | .saving _ | .returned => True

/-- The variables of the loop say what its history says. -/
structure Tracks (saveEvery : Nat) (s : Loop) : Prop where
  lawful : Lawful (Allowed saveEvery) s.log
  settled_eq : s.restoredStart = lastSettled s.log
  saved_eq : s.lastTask = lastSaved s.log
  next_eq : ∀ mark, lastMark s.log = some mark → s.nextSave = mark + saveEvery
  marked : s.restoredStart ≠ 0 → lastMark s.log ≠ none

theorem exists_settled {log : List Event} {start : Nat}
    (h : start ≠ lastSettled log) (hzero : start = 0) :
    ∃ start now, .settled start now ∈ log ∧ start ≠ 0 := by
  subst hzero
  rw [lastSettled] at h
  cases hlatest : latest (fun
      | Event.settled start _ => some start
      | _ => none) log with
  | none =>
      rw [hlatest] at h
      exact absurd rfl h
  | some start =>
      obtain ⟨e, hmem, he⟩ := exists_of_latest hlatest
      rw [hlatest] at h
      cases e with
      | settled start' now =>
          obtain rfl := Option.some.inj he
          exact ⟨start', now, hmem, Ne.symm h⟩
      | _ => cases he

/-- The events that the variables do not depend on. -/
def Silent : Event → Prop
  | .settled _ _ | .saved _ | .due _ _ => False
  | _ => True

theorem lastSettled_concat {e : Event} (he : ∀ start now, e ≠ .settled start now)
    (log : List Event) : lastSettled (log ++ [e]) = lastSettled log := by
  rw [lastSettled, latest_concat]
  cases e with
  | settled start now => exact absurd rfl (he start now)
  | _ => rfl

theorem lastSettled_silent {e : Event} (he : Silent e) (log : List Event) :
    lastSettled (log ++ [e]) = lastSettled log := by
  apply lastSettled_concat
  rintro start now rfl
  exact he

theorem lastSaved_silent {e : Event} (he : Silent e) (log : List Event) :
    lastSaved (log ++ [e]) = lastSaved log := by
  cases e <;> simp_all [lastSaved, Silent]

theorem lastMark_silent {e : Event} (he : Silent e) (log : List Event) :
    lastMark (log ++ [e]) = lastMark log := by
  cases e <;> simp_all [lastMark, Silent]

section Pick

/-- What one slot does to the best one so far. -/
theorem pick_cons {first : Value} {slots : List Value} {best : Option Value}
    {slot : Value} (h : pick (first :: slots) best = some slot) :
    isProcessing first = false ∧
      ((pick slots best = some slot ∧
          (minTokens ≤ promptTokens first →
            ∃ b, best = some b ∧ taskNumber first ≤ taskNumber b)) ∨
        (pick slots (some first) = some slot ∧ minTokens ≤ promptTokens first ∧
          ∀ b, best = some b → taskNumber b < taskNumber first)) := by
  rw [pick] at h
  split at h
  · cases h
  · rename_i hidle
    refine ⟨eq_false_of_ne_true hidle, ?_⟩
    split at h
    · rename_i hsmall
      exact Or.inl ⟨h, fun hbig => absurd hsmall (by omega)⟩
    · rename_i hbig
      split at h
      · rename_i hlarger
        refine Or.inr ⟨h, by omega, ?_⟩
        rintro b rfl
        simpa using hlarger
      · rename_i hsmaller
        refine Or.inl ⟨h, fun _ => ?_⟩
        cases best with
        | none => simp at hsmaller
        | some b => exact ⟨b, rfl, by simpa using hsmaller⟩

theorem pick_spec {slots : List Value} {best : Option Value} {slot : Value}
    (h : pick slots best = some slot) :
    slots.any isProcessing = false ∧
      (slot ∈ slots ∧ minTokens ≤ promptTokens slot ∨ best = some slot) ∧
      (∀ b, best = some b → taskNumber b ≤ taskNumber slot) ∧
      ∀ other ∈ slots, minTokens ≤ promptTokens other →
        taskNumber other ≤ taskNumber slot := by
  induction slots generalizing best with
  | nil =>
      rw [pick] at h
      subst h
      simp
  | cons first slots ih =>
      rw [List.forall_mem_cons, List.any_cons]
      obtain ⟨hidle, ⟨hrest, hfirst⟩ | ⟨hrest, hbig, hlarger⟩⟩ := pick_cons h
      · obtain ⟨hany, hmem, hbest, hall⟩ := ih hrest
        refine ⟨by simp [hidle, hany], ?_, hbest, ?_, hall⟩
        · exact hmem.imp_left fun ⟨hslot, htokens⟩ =>
            ⟨List.mem_cons_of_mem first hslot, htokens⟩
        · intro htokens
          obtain ⟨b, hb, hle⟩ := hfirst htokens
          exact Int.le_trans hle (hbest b hb)
      · obtain ⟨hany, hmem, hbest, hall⟩ := ih hrest
        have htask := hbest first rfl
        refine ⟨by simp [hidle, hany], ?_, ?_, fun _ => htask, hall⟩
        · rcases hmem with ⟨hslot, htokens⟩ | hslot
          · exact Or.inl ⟨List.mem_cons_of_mem first hslot, htokens⟩
          · obtain rfl := Option.some.inj hslot
            exact Or.inl ⟨List.mem_cons_self, hbig⟩
        · intro b hb
          exact Int.le_trans (Int.le_of_lt (hlarger b hb)) htask

theorem pickSlot_spec {slots : List Value} {slot : Value}
    (h : pickSlot slots = some slot) :
    slots.any isProcessing = false ∧ Largest slots slot := by
  obtain ⟨hany, hmem, -, hall⟩ := pick_spec h
  rcases hmem with ⟨hslot, htokens⟩ | hnone
  · exact ⟨hany, hslot, htokens, hall⟩
  · cases hnone

end Pick

section Steps

variable {saveEvery : Nat} {s : Loop}

theorem Tracks.goto (h : Tracks saveEvery s) (phase : Phase) :
    Tracks saveEvery (s.goto phase) :=
  ⟨h.lawful, h.settled_eq, h.saved_eq, h.next_eq, h.marked⟩

theorem Tracks.record (h : Tracks saveEvery s) {e : Event} (he : Silent e)
    (hallowed : Allowed saveEvery s.log e) : Tracks saveEvery (s.record e) where
  lawful := lawful_concat h.lawful hallowed
  settled_eq := h.settled_eq.trans (lastSettled_silent he s.log).symm
  saved_eq := h.saved_eq.trans (lastSaved_silent he s.log).symm
  next_eq mark hmark := h.next_eq mark ((lastMark_silent he s.log).symm.trans hmark)
  marked hstart hnone := h.marked hstart ((lastMark_silent he s.log).symm.trans hnone)

theorem Tracks.send (h : Tracks saveEvery s) (call : Call) (phase : Phase)
    (hallowed : Allowed saveEvery s.log (.send call)) :
    Tracks saveEvery (s.send call phase) :=
  (h.record (e := .send call) trivial hallowed).goto phase

theorem Tracks.settle (h : Tracks saveEvery s) {start : Nat}
    (hlook : lastLook s.log = some start) (now : Nat) :
    Tracks saveEvery (s.settle saveEvery start now) where
  lawful := lawful_concat h.lawful hlook
  settled_eq := by simp [Loop.settle, Loop.record, Loop.goto, lastSettled]
  saved_eq := by simp [Loop.settle, Loop.record, Loop.goto, lastSaved]
  next_eq mark hmark := by
    simp only [Loop.settle, Loop.record, Loop.goto, lastMark, latest_concat,
      Option.some_or, Option.some.injEq] at hmark ⊢
    omega
  marked _ := by simp [Loop.settle, Loop.record, Loop.goto, lastMark]

/-- The invariant of the loop. -/
structure Valid (saveEvery : Nat) (s : Loop) : Prop where
  tracks : Tracks saveEvery s
  reached : Reached saveEvery s.log s.lastTask s.phase

theorem Tracks.sleep (h : Tracks saveEvery s) : Valid saveEvery (s.goto .sleeping) :=
  ⟨h.goto .sleeping, trivial⟩

theorem Tracks.valid_settle (h : Tracks saveEvery s) {start : Nat}
    (hlook : lastLook s.log = some start) (now : Nat) :
    Valid saveEvery (s.settle saveEvery start now) :=
  ⟨h.settle hlook now, trivial⟩

theorem lastLook_look (log : List Event) (start : Nat) :
    lastLook (log ++ [.look start]) = some start := by
  simp [lastLook]

theorem Tracks.due (h : Tracks saveEvery s) (checked marked : Nat) :
    Tracks saveEvery
      ({ s with nextSave := marked + saveEvery }.record (.due checked marked)) where
  lawful := lawful_concat h.lawful trivial
  settled_eq := by simp [Loop.record, lastSettled, h.settled_eq]
  saved_eq := by simp [Loop.record, lastSaved, h.saved_eq]
  next_eq mark hmark := by
    simp only [Loop.record, lastMark, latest_concat, Option.some_or,
      Option.some.injEq] at hmark ⊢
    omega
  marked _ := by simp [Loop.record, lastMark]

theorem valid_wake (h : Tracks saveEvery s) (hphase : s.phase = .sleeping)
    (start checked marked : Nat) :
    Valid saveEvery (wake saveEvery start checked marked s) := by
  have hseen : Tracks saveEvery (s.record (.look start)) :=
    h.record (e := .look start) trivial trivial
  have hlook := lastLook_look s.log start
  rw [wake]
  split
  · rename_i hnew
    rw [h.settled_eq] at hnew
    refine ⟨hseen.send .health _ ⟨?_, trivial⟩, s.log, ?_, hnew⟩
    · intro hzero
      obtain ⟨start', now, hmem, hne⟩ := exists_settled hnew
        (Option.some.inj (hlook.symm.trans hzero))
      exact ⟨start', now, List.mem_append_left _ hmem, hne⟩
    · simp [Loop.send, Loop.record, Loop.goto]
  · rename_i hsame
    rw [not_not] at hsame
    split
    · refine ⟨hseen, ?_⟩
      change Reached saveEvery _ _ s.phase
      rw [hphase]
      trivial
    · rename_i hdue
      rw [not_or, Nat.not_lt] at hdue
      obtain ⟨hstart, htime⟩ := hdue
      obtain ⟨mark, hmark⟩ := Option.ne_none_iff_exists'.mp
        (h.marked (hsame ▸ hstart))
      have hnext := h.next_eq mark hmark
      refine ⟨(hseen.due checked marked).send .slots _ ⟨?_, trivial⟩,
        s.log, start, checked, marked, ?_, hsame.trans h.settled_eq, hstart,
        ⟨mark, hmark, by omega⟩, h.saved_eq⟩
      · intro hzero
        simp [lastLook, Loop.record] at hzero
        exact absurd hzero hstart
      · simp [Loop.send, Loop.record, Loop.goto]

theorem valid_healthAnswer (h : Tracks saveEvery s) {start : Nat}
    (hreached : Reached saveEvery s.log s.lastTask (.health start))
    (answer : Answer) : Valid saveEvery (healthAnswer start answer s) := by
  obtain ⟨before, hlog, hnew⟩ := hreached
  have hseen : Tracks saveEvery (s.record (.health (healthy answer))) :=
    h.record (e := .health _) trivial trivial
  rw [healthAnswer]
  split
  · rename_i hok
    refine ⟨hseen.send .slots _ ⟨?_, trivial⟩, before, ?_, hnew⟩
    · intro hzero
      have hlook : start = 0 := by
        simpa [lastLook, Loop.record, hlog] using hzero
      obtain ⟨start', now, hmem, hne⟩ := exists_settled hnew hlook
      refine ⟨start', now, ?_, hne⟩
      simp [Loop.record, hlog, hmem]
    · simp [Loop.send, Loop.record, Loop.goto, hlog, hok]
  · exact hseen.sleep

theorem valid_busyAnswer (h : Tracks saveEvery s) {start : Nat}
    (hreached : Reached saveEvery s.log s.lastTask (.busy start))
    (answer : Answer) (file : String) (isFile : Bool) (now : Nat) :
    Valid saveEvery (busyAnswer saveEvery start answer file isFile now s) := by
  obtain ⟨before, hlog, hnew⟩ := hreached
  have hseen : Tracks saveEvery (s.record (.slots (listed answer))) :=
    h.record (e := .slots _) trivial trivial
  have hlook : lastLook (s.record (.slots (listed answer))).log = some start := by
    simp [lastLook, Loop.record, hlog]
  rw [busyAnswer]
  split
  · exact hseen.sleep
  · rename_i slots hlisted
    split
    · exact hseen.valid_settle hlook now
    · rename_i hidle
      split
      · refine ⟨hseen.send (.restore file) _ ⟨?_, ?_⟩, ?_⟩
        · intro hzero
          obtain ⟨start', now, hmem, hne⟩ := exists_settled hnew
            (Option.some.inj (hlook.symm.trans hzero))
          refine ⟨start', now, ?_, hne⟩
          simp [Loop.record, hlog, hmem]
        · refine ⟨before, start, slots, ?_, hnew, eq_false_of_ne_true hidle⟩
          simp [Loop.record, hlog, hlisted]
        · change lastLook _ = some start
          simp [Loop.send, Loop.goto, Loop.record, lastLook, hlog]
      · exact hseen.valid_settle hlook now

theorem valid_restoreAnswer (h : Tracks saveEvery s) {start : Nat} {file : String}
    (hreached : Reached saveEvery s.log s.lastTask (.restoring start file))
    (answer : Answer) (now : Nat) :
    Valid saveEvery (restoreAnswer saveEvery start file answer now s) := by
  have hlook : lastLook s.log = some start := hreached
  rw [restoreAnswer]
  split
  · exact h.valid_settle hlook now
  · have hremoved : Tracks saveEvery (s.record (.removed file)) :=
      h.record (e := .removed file) trivial trivial
    apply hremoved.valid_settle
    simpa [Loop.record, lastLook] using hlook

theorem valid_pickAnswer (h : Tracks saveEvery s)
    (hreached : Reached saveEvery s.log s.lastTask .picking)
    (answer : Answer) (file : String) :
    Valid saveEvery (pickAnswer answer file s) := by
  obtain ⟨before, start, checked, marked, hlog, hsame, hstart, hmark, htask⟩ :=
    hreached
  have hseen : Tracks saveEvery (s.record (.slots (listed answer))) :=
    h.record (e := .slots _) trivial trivial
  rw [pickAnswer]
  split
  · exact hseen.sleep
  · rename_i slot hpick
    obtain ⟨slots, hlisted, hslot⟩ := Option.bind_eq_some_iff.mp hpick
    obtain ⟨hidle, hlargest⟩ := pickSlot_spec hslot
    split
    · exact hseen.sleep
    · rename_i hchanged
      split
      · exact hseen.sleep
      · rename_i id hid
        refine ⟨hseen.send _ _ ⟨?_, ?_⟩, trivial⟩
        · intro hzero
          have : start = 0 := by simpa [lastLook, Loop.record, hlog] using hzero
          exact absurd this hstart
        · refine ⟨before, start, checked, marked, slots, slot, ?_, hsame, hstart,
            hmark, hidle, hlargest, hid, htask ▸ hchanged⟩
          simp [Loop.record, hlog, hlisted]

theorem valid_saveAnswer (h : Tracks saveEvery s) (slot : Value) (answer : Answer)
    (moved : Bool) : Valid saveEvery (saveAnswer slot answer moved s) := by
  rw [saveAnswer.eq_def]
  split
  · split
    · refine ⟨?_, trivial⟩
      exact
        { lawful := lawful_concat h.lawful trivial
          settled_eq := by
            simp [Loop.goto, Loop.record, lastSettled, h.settled_eq]
          saved_eq := by simp [Loop.goto, Loop.record, lastSaved]
          next_eq := by
            intro mark hmark
            apply h.next_eq
            simpa [Loop.goto, Loop.record, lastMark] using hmark
          marked := by
            intro hstart
            simpa [Loop.goto, Loop.record, lastMark] using h.marked hstart }
    · exact h.sleep
  · exact h.sleep

theorem valid_step (i : Input) (s : Loop) (h : Valid saveEvery s) :
    Valid saveEvery (step saveEvery i s) := by
  obtain ⟨htracks, hreached⟩ := h
  rw [step.eq_def]
  split
  · exact ⟨htracks.goto .returned, trivial⟩
  · rename_i hphase
    exact valid_wake htracks hphase _ _ _
  · rename_i hphase
    exact valid_healthAnswer htracks (hphase ▸ hreached) _
  · rename_i hphase
    exact valid_busyAnswer htracks (hphase ▸ hreached) _ _ _ _
  · rename_i hphase
    exact valid_restoreAnswer htracks (hphase ▸ hreached) _ _
  · rename_i hphase
    exact valid_pickAnswer htracks (hphase ▸ hreached) _ _
  · exact valid_saveAnswer htracks _ _ _
  · exact ⟨htracks, hreached⟩

theorem valid_begin (saveEvery now : Nat) : Valid saveEvery (begin saveEvery now) where
  tracks :=
    { lawful := lawful_nil
      settled_eq := rfl
      saved_eq := rfl
      next_eq := nofun
      marked := fun h => absurd rfl h }
  reached := trivial

end Steps

section Laws

variable {saveEvery : Nat}

/-- Without a look at another start, the settled one stays. -/
theorem settled_stays {past later : List Event} {start now : Nat}
    (h : Lawful (Allowed saveEvery) (past ++ .settled start now :: later))
    (hlooks : ∀ start', .look start' ∈ later → start' = start) :
    lastLook (past ++ .settled start now :: later) = some start ∧
      lastSettled (past ++ .settled start now :: later) = start := by
  induction later using List.reverseRecOn with
  | nil =>
      have hlook : lastLook past = some start := h past _ (List.prefix_refl _)
      rw [lastLook] at hlook
      simp [lastLook, lastSettled, hlook]
  | append_singleton later e ih =>
      rw [← List.cons_append, ← List.append_assoc] at h ⊢
      obtain ⟨hlook, hsettled⟩ := ih (h.of_prefix (List.prefix_append _ _))
        (fun start' hmem => hlooks start' (List.mem_append_left _ hmem))
      have hallowed := h _ e (List.prefix_refl _)
      cases e with
      | look start' =>
          obtain rfl := hlooks start' (by simp)
          exact ⟨lastLook_look _ _, (lastSettled_concat (by simp) _).trans hsettled⟩
      | settled start' now' =>
          have hsame : lastLook _ = some start' := hallowed
          obtain rfl := Option.some.inj (hlook.symm.trans hsame)
          rw [lastLook, latest_concat, ← lastLook]
          refine ⟨hlook, ?_⟩
          rw [lastSettled, latest_concat]
          rfl
      | _ =>
          rw [lastLook, latest_concat, ← lastLook]
          exact ⟨hlook, (lastSettled_concat (by simp) _).trans hsettled⟩

theorem loopLaw_of_lawful {log : List Event}
    (h : Lawful (Allowed saveEvery) log) : LoopLaw saveEvery log where
  restore_due past file hpast := (h past _ hpast).2
  restore_once past start now later file hpast := by
    obtain ⟨before, start', slots, heq, hnew, -⟩ := (h _ _ hpast).2
    by_contra hnone
    have hlooks : ∀ start', .look start' ∈ later → start' = start := by
      intro start'' hmem
      by_contra hne
      exact hnone ⟨start'', hne, hmem⟩
    obtain ⟨hlook, hsettled⟩ := settled_stays
      (h.of_prefix ((List.prefix_append _ _).trans hpast)) hlooks
    rw [heq] at hlook hsettled
    have hstart : start' = start := by simpa [lastLook] using hlook
    apply hnew
    rw [hstart, ← hsettled]
    simp [lastSettled]
  quiet_at_zero past call hpast := (h past _ hpast).1
  save_due past id file hpast := (h past _ hpast).2

/-- Whatever the counter shows and whatever is answered, the loop restores once
for each start and saves what has changed. -/
theorem loopLaw_run (saveEvery now : Nat) (inputs : List Input) :
    LoopLaw saveEvery (run (step saveEvery) inputs (begin saveEvery now)).log :=
  loopLaw_of_lawful
    (run_invariant valid_step inputs (valid_begin saveEvery now)).tracks.lawful

/-- The counter goes back to 0 after a start was settled. -/
theorem not_quiet_backToZero :
    let health : Value := .object [("status", .string "ok")]
    let inputs : List Input :=
      [.wake 1 20 20, .answer (.ok health) "m.slot" false false 21,
        .answer (.ok (.array [])) "m.slot" false false 22, .wake 0 42 42]
    (run (step 300000) inputs (begin 300000 0)).log.getLast? =
        some (.send .health) ∧
      lastLook (run (step 300000) inputs (begin 300000 0)).log = some 0 :=
  ⟨rfl, rfl⟩

end Laws

end AssistantHub.SlotLoopRuns
