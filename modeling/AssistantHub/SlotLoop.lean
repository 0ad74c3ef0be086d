import AssistantHub.Histories
import AssistantHub.JsonValue
import AssistantHub.RunPrefixes
import Mathlib.Algebra.Group.Int.Defs

namespace AssistantHub.SlotLoop

open AssistantHub.CrashSteps
open AssistantHub.Histories
open AssistantHub.JsonValue
open AssistantHub.RunPrefixes

def minTokens : Int := 1024

/-- True while the slot runs a request. llama.cpp says `is_processing`,
ik_llama.cpp says `state` (0 is idle). -/
def isProcessing (slot : Value) : Bool :=
  ((slot.index "is_processing").asBool.or
    ((slot.index "state").asI64.map fun s => decide (s ≠ 0))).getD false

/-- The tokens in the slot. ik_llama.cpp does not count them. -/
def promptTokens (slot : Value) : Int :=
  ((slot.index "n_prompt_tokens").asI64.or
    ((slot.index "prompt").asStr.map fun p =>
      min (p.length / 4 : Nat) (2 ^ 63 - 1))).getD 0

def idTask (slot : Value) : Option Int := (slot.index "id_task").asI64

def taskNumber (slot : Value) : Int := (idTask slot).getD (-1)

/-- The loop of `pick_slot` over the slots, with the best one so far. -/
def pick : List Value → Option Value → Option Value
  | [], best => best
  | slot :: slots, best =>
      if isProcessing slot then none
      else if promptTokens slot < minTokens then pick slots best
      else if best.all fun b => taskNumber b < taskNumber slot then
        pick slots (some slot)
      else pick slots best

def pickSlot (slots : List Value) : Option Value := pick slots none

/-- Why a call fails: the time is over, the connection breaks, the server
answers with an error, or with a text that is no JSON. -/
inductive CallError where
  | timeout
  | connection
  | status
  | body
  deriving DecidableEq

abbrev Answer := Except CallError Value

def healthy : Answer → Bool
  | .ok v => (v.index "status").asStr == some "ok"
  | .error _ => false

def listed : Answer → Option (List Value)
  | .ok v => v.asArray
  | .error _ => none

/-- After these answers to a restore the saved file stays. -/
def keepsFile : Answer → Bool
  | .ok _ => true
  | .error e => e = .connection

inductive Call where
  | health
  | slots
  | restore (file : String)
  | save (id : Int) (file : String)
  deriving DecidableEq

inductive Event where
  /-- The start counter is loaded. -/
  | look (start : Nat)
  /-- The time for a save has come at `checked`; the next one is counted from
  `marked`. -/
  | due (checked marked : Nat)
  | send (call : Call)
  | health (ok : Bool)
  | slots (list : Option (List Value))
  /-- The start is restored, has no file, or runs a request. -/
  | settled (start now : Nat)
  | saved (task : Option Int)
  | removed (file : String)

inductive Phase where
  | sleeping
  | health (start : Nat)
  | busy (start : Nat)
  | restoring (start : Nat) (file : String)
  | picking
  | saving (slot : Value)
  | returned

/-- `SlotCache::run` with its variables, and what it has done. -/
structure Loop where
  phase : Phase
  restoredStart : Nat
  lastTask : Option Int
  nextSave : Nat
  log : List Event

def Loop.record (e : Event) (s : Loop) : Loop := { s with log := s.log ++ [e] }

def Loop.goto (phase : Phase) (s : Loop) : Loop := { s with phase := phase }

def Loop.send (call : Call) (phase : Phase) (s : Loop) : Loop :=
  (s.record (.send call)).goto phase

def Loop.settle (saveEvery start now : Nat) (s : Loop) : Loop :=
  { (s.record (.settled start now)).goto .sleeping with
    restoredStart := start
    lastTask := none
    nextSave := now + saveEvery }

/-- What the loop waits for. With an answer come the name of the saved file,
whether it is there, whether the files of a save could be moved, and the time
when all that is done. -/
inductive Input where
  | cancel
  | wake (start checked marked : Nat)
  | answer (answer : Answer) (file : String) (isFile moved : Bool) (now : Nat)

def wake (saveEvery start checked marked : Nat) (s : Loop) : Loop :=
  let seen := s.record (.look start)
  if start ≠ s.restoredStart then seen.send .health (.health start)
  else if start = 0 ∨ checked < s.nextSave then seen
  else
    ({ seen with nextSave := marked + saveEvery }.record
      (.due checked marked)).send .slots .picking

def healthAnswer (start : Nat) (answer : Answer) (s : Loop) : Loop :=
  let seen := s.record (.health (healthy answer))
  if healthy answer then seen.send .slots (.busy start) else seen.goto .sleeping

def busyAnswer (saveEvery start : Nat) (answer : Answer) (file : String)
    (isFile : Bool) (now : Nat) (s : Loop) : Loop :=
  let seen := s.record (.slots (listed answer))
  match listed answer with
  | none => seen.goto .sleeping
  | some slots =>
      if slots.any isProcessing then seen.settle saveEvery start now
      else if isFile then seen.send (.restore file) (.restoring start file)
      else seen.settle saveEvery start now

def restoreAnswer (saveEvery start : Nat) (file : String) (answer : Answer)
    (now : Nat) (s : Loop) : Loop :=
  if keepsFile answer then s.settle saveEvery start now
  else (s.record (.removed file)).settle saveEvery start now

def pickAnswer (answer : Answer) (file : String) (s : Loop) : Loop :=
  let seen := s.record (.slots (listed answer))
  match (listed answer).bind pickSlot with
  | none => seen.goto .sleeping
  | some slot =>
      if idTask slot = s.lastTask then seen.goto .sleeping
      else
        match (slot.index "id").asI64 with
        | none => seen.goto .sleeping
        | some id => seen.send (.save id (file ++ ".tmp")) (.saving slot)

def saveAnswer (slot : Value) (answer : Answer) (moved : Bool) (s : Loop) : Loop :=
  match answer with
  | .ok _ =>
      if moved then
        { (s.record (.saved (idTask slot))).goto .sleeping with
          lastTask := idTask slot }
      else s.goto .sleeping
  | .error _ => s.goto .sleeping

/-- An input for which the loop does not wait changes nothing. -/
def step (saveEvery : Nat) (i : Input) (s : Loop) : Loop :=
  match s.phase, i with
  | .sleeping, .cancel => s.goto .returned
  | .sleeping, .wake start checked marked => wake saveEvery start checked marked s
  | .health start, .answer a _ _ _ _ => healthAnswer start a s
  | .busy start, .answer a file isFile _ now =>
      busyAnswer saveEvery start a file isFile now s
  | .restoring start file, .answer a _ _ _ now =>
      restoreAnswer saveEvery start file a now s
  | .picking, .answer a file _ _ _ => pickAnswer a file s
  | .saving slot, .answer a _ _ moved _ => saveAnswer slot a moved s
  | _, _ => s

/-- The loop begins at the time `now`. -/
def begin (saveEvery now : Nat) : Loop :=
  { phase := .sleeping
    restoredStart := 0
    lastTask := none
    nextSave := now + saveEvery
    log := [] }

end AssistantHub.SlotLoop
