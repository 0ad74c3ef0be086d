import AssistantHub.DeliveryLedger
import AssistantHub.MediaCalls

namespace AssistantHub.MediaFollow

open AssistantHub.CrashSteps
open AssistantHub.DeliveryLedger
open AssistantHub.HeaderEncoding
open AssistantHub.IndexStore
open AssistantHub.JellyfinItems
open AssistantHub.JsonValue
open AssistantHub.MediaCalls
open AssistantHub.MediaDocs
open AssistantHub.MediaSync
open AssistantHub.RunPrefixes

/-- Times are in milliseconds. -/
def FULL_SYNC_EVERY : Nat := 6 * 3600 * 1000

inductive WsEvent where
  | changes (c : Changes)
  | reconnected

def listenOnce (first : Bool) (messages : List Value) : List WsEvent :=
  (if first then [] else [.reconnected]) ++
    messages.filterMap fun msg =>
      (libraryChanges msg).bind fun c =>
        if c.isEmpty then none else some (.changes c)

/-- The state of `run`. The channel is the ledger's, with what the calls have
covered so far. -/
structure Follow where
  media : MediaIndex
  quietMs : Nat
  ledger : Ledger WsEvent
  pending : Changes
  now : Nat
  nextFull : Nat
  stopped : Bool

def Follow.start (json : HeaderJson) (cfg : MediaConfig) (dir : IndexFiles.Dir)
    (quietMs now : Nat) : Follow :=
  { media := startIndex json cfg dir
    quietMs := quietMs
    ledger := Ledger.empty WsEvent
    pending := { changed := [], removed := [] }
    now := now
    nextFull := now
    stopped := false }

/-- What ends the wait of a turn, after how long, and what arrives meanwhile. A
timer fires late at will. -/
inductive Wake where
  | cancelled
  | received (waited : Nat) (arrived : List WsEvent)
  | elapsed (late : Nat) (arrived : List WsEvent) (io : Io)
      (answers : List Answer) (took : Nat) (arrivedMeanwhile : List WsEvent)

/-- What the outside does in one turn of the loop. The first four fields are for
the full comparison, if the turn makes one. -/
structure Turn where
  io : Io
  works : List Answer
  episodes : List Answer
  took : Nat
  arrived : List WsEvent
  wake : Wake

def syncIfDue (json : HeaderJson) (t : Turn) (s : Follow) : Follow :=
  if s.now ≥ s.nextFull then
    let result := MediaSync.fullSync json t.io t.works t.episodes s.media
    let ledger := if result.1.isOk then s.ledger.compare else s.ledger
    { s with
      media := noteFailure result
      ledger := ledger.arrive t.arrived
      now := s.now + t.took
      nextFull := s.now + t.took + FULL_SYNC_EVERY }
  else s

def waitMs (s : Follow) : Nat :=
  if s.pending.isEmpty then s.nextFull - s.now else s.quietMs

/-- `rx.recv()`; the channel is only empty here when the listener is gone. -/
def receive (s : Follow) : Follow :=
  match s.ledger.next with
  | none => { s with stopped := true }
  | some (.changes c) =>
      { s with
        ledger := s.ledger.receive
        pending :=
          { changed := s.pending.changed ++ c.changed
            removed := s.pending.removed ++ c.removed } }
  | some .reconnected =>
      { s with ledger := s.ledger.receive, nextFull := s.now }

def applyPending (json : HeaderJson) (io : Io) (answers : List Answer)
    (s : Follow) : Follow :=
  let result := MediaSync.apply json io answers s.pending s.media
  { s with
    media := result.2
    ledger := s.ledger.takeBatch result.1.isOk
    pending := { changed := [], removed := [] } }

def Follow.pass (ms : Nat) (arrived : List WsEvent) (s : Follow) : Follow :=
  { s with now := s.now + ms, ledger := s.ledger.arrive arrived }

def wakeUp (json : HeaderJson) (wake : Wake) (s : Follow) : Follow :=
  match wake with
  | .cancelled => { s with stopped := true }
  | .received waited arrived => receive (s.pass waited arrived)
  | .elapsed late arrived io answers took arrivedMeanwhile =>
      let awake := s.pass (waitMs s + late) arrived
      if s.pending.isEmpty then awake
      else (applyPending json io answers awake).pass took arrivedMeanwhile

def turn (json : HeaderJson) (t : Turn) (s : Follow) : Follow :=
  if s.stopped then s else wakeUp json t.wake (syncIfDue json t s)

def followed (json : HeaderJson) (turns : List Turn) (s : Follow) : Follow :=
  run (turn json) turns s

theorem followed_concat (json : HeaderJson) (turns : List Turn) (t : Turn)
    (s : Follow) :
    followed json (turns ++ [t]) s = turn json t (followed json turns s) :=
  run_concat _ turns t s

theorem media_syncIfDue (json : HeaderJson) (t : Turn) (s : Follow) :
    ∃ calls, (syncIfDue json t s).media = issued json calls s.media := by
  rw [syncIfDue]
  split
  · exact ⟨[.fullSync t.io t.works t.episodes], rfl⟩
  · exact ⟨[], rfl⟩

theorem media_receive (s : Follow) : (receive s).media = s.media := by
  rw [receive]
  split <;> rfl

theorem media_wakeUp (json : HeaderJson) (wake : Wake) (s : Follow) :
    ∃ calls, (wakeUp json wake s).media = issued json calls s.media := by
  cases wake with
  | cancelled => exact ⟨[], rfl⟩
  | received waited arrived => exact ⟨[], media_receive _⟩
  | elapsed late arrived io answers took arrivedMeanwhile =>
      rw [wakeUp]
      split
      · exact ⟨[], rfl⟩
      · exact ⟨[.apply io answers s.pending], rfl⟩

/-- The loop does nothing to the index but make calls. -/
theorem media_turn (json : HeaderJson) (t : Turn) (s : Follow) :
    ∃ calls, (turn json t s).media = issued json calls s.media := by
  rw [turn]
  split
  · exact ⟨[], rfl⟩
  · obtain ⟨first, hfirst⟩ := media_syncIfDue json t s
    obtain ⟨second, hsecond⟩ := media_wakeUp json t.wake (syncIfDue json t s)
    refine ⟨first ++ second, ?_⟩
    rw [hsecond, hfirst]
    exact (run_append (issue json) first second s.media).symm

theorem media_followed (json : HeaderJson) (turns : List Turn) (s : Follow) :
    ∃ calls, (followed json turns s).media = issued json calls s.media := by
  refine run_invariant
    (p := fun a : Follow => ∃ calls, a.media = issued json calls s.media)
    ?_ turns ⟨[], rfl⟩
  rintro t a ⟨first, hfirst⟩
  obtain ⟨second, hsecond⟩ := media_turn json t a
  refine ⟨first ++ second, ?_⟩
  rw [hsecond, hfirst]
  exact (run_append (issue json) first second s.media).symm

end AssistantHub.MediaFollow
