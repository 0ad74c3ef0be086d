import AssistantHub.MediaFollow
import AssistantHub.MediaMirror

namespace AssistantHub.FollowCoverage

open AssistantHub.CrashSteps
open AssistantHub.DeliveryLedger
open AssistantHub.HeaderEncoding
open AssistantHub.MediaCalls
open AssistantHub.MediaDocs
open AssistantHub.MediaFollow
open AssistantHub.MediaMirror
open AssistantHub.MediaSync
open AssistantHub.RunPrefixes

/-- Only changes can be applied; a reconnect needs a full comparison. -/
def Applicable (event : WsEvent) : Prop := ∃ c, event = .changes c

def WsEvent.ids (part : Changes → List String) : WsEvent → List String
  | .changes c => part c
  | .reconnected => []

def merged (events : List WsEvent) : Changes :=
  { changed := events.flatMap (WsEvent.ids Changes.changed)
    removed := events.flatMap (WsEvent.ids Changes.removed) }

def Exact (s : Follow) : Prop := s.pending = merged s.ledger.batch

/-- The message was received after the last batch was taken, and its changes
are among the pending ones. -/
def InPending (s : Follow) (i : Nat) : Prop :=
  s.ledger.batchFrom ≤ i ∧ ∃ c, s.ledger.arrived[i]? = some (.changes c) ∧
    c.changed ⊆ s.pending.changed ∧ c.removed ⊆ s.pending.removed

/-- Every received message is covered by a call that succeeded, or pending, or
a full comparison is due at once. -/
def Held (s : Follow) : Prop :=
  ∀ i < s.ledger.received, Covered Applicable s.ledger i ∨ InPending s i ∨
    s.nextFull ≤ s.now

theorem inPending_iff {s : Follow} (hexact : Exact s) {i : Nat}
    (hi : i < s.ledger.received) :
    InPending s i ↔ Waits Applicable s.ledger i := by
  constructor
  · rintro ⟨hfrom, c, hc, -, -⟩
    exact ⟨hfrom, hi, _, hc, c, rfl⟩
  · intro hwaits
    obtain ⟨a, hbatch, ha, c, rfl⟩ := mem_batch_of_waits hwaits
    refine ⟨hwaits.1, c, ha, ?_, ?_⟩
    · intro id hid
      rw [hexact]
      exact List.mem_flatMap.mpr ⟨_, hbatch, hid⟩
    · intro id hid
      rw [hexact]
      exact List.mem_flatMap.mpr ⟨_, hbatch, hid⟩

theorem held_iff {s : Follow} (hexact : Exact s) :
    Held s ↔ (Owed Applicable s.ledger → s.nextFull ≤ s.now) := by
  constructor
  · rintro hheld ⟨i, hi, hcovered, hwaits⟩
    rcases hheld i hi with h | h | h
    · exact absurd h hcovered
    · exact absurd ((inPending_iff hexact hi).mp h) hwaits
    · exact h
  · intro h i hi
    by_cases hcovered : Covered Applicable s.ledger i
    · exact Or.inl hcovered
    · by_cases hwaits : Waits Applicable s.ledger i
      · exact Or.inr (Or.inl ((inPending_iff hexact hi).mpr hwaits))
      · exact Or.inr (Or.inr (h ⟨i, hi, hcovered, hwaits⟩))

theorem exact_pass {s : Follow} (h : Exact s) (ms : Nat)
    (arrived : List WsEvent) : Exact (s.pass ms arrived) := by
  change s.pending = merged (s.ledger.arrive arrived).batch
  rw [batch_arrive]
  exact h

theorem exact_receive {s : Follow} (h : Exact s) : Exact (receive s) := by
  rw [receive]
  split
  · exact h
  · rename_i c hnext
    change Changes.mk _ _ = merged s.ledger.receive.batch
    rw [batch_receive hnext, h]
    simp [merged, WsEvent.ids]
  · rename_i hnext
    change s.pending = merged s.ledger.receive.batch
    rw [batch_receive hnext, h]
    simp [merged, WsEvent.ids]

theorem exact_applyPending (json : HeaderJson) (io : Io)
    (answers : List JellyfinItems.Answer) (s : Follow) :
    Exact (applyPending json io answers s) := by
  change Changes.mk [] [] = merged (s.ledger.takeBatch _).batch
  rw [batch_takeBatch]
  rfl

theorem exact_wakeUp (json : HeaderJson) (wake : Wake) {s : Follow}
    (h : Exact s) : Exact (wakeUp json wake s) := by
  cases wake with
  | cancelled => exact h
  | received waited arrived => exact exact_receive (exact_pass h waited arrived)
  | elapsed late arrived io answers took arrivedMeanwhile =>
      rw [wakeUp]
      split
      · exact exact_pass h _ _
      · exact exact_pass (exact_applyPending json io answers _) _ _

theorem exact_syncIfDue (json : HeaderJson) (t : Turn) {s : Follow}
    (h : Exact s) : Exact (syncIfDue json t s) := by
  rw [syncIfDue]
  split
  · change s.pending = merged (Ledger.arrive _ t.arrived).batch
    rw [batch_arrive]
    split
    · exact h
    · exact h
  · exact h

theorem exact_turn (json : HeaderJson) (t : Turn) {s : Follow} (h : Exact s) :
    Exact (turn json t s) := by
  rw [turn]
  split
  · exact h
  · exact exact_wakeUp json t.wake (exact_syncIfDue json t h)

def SyncFails (json : HeaderJson) (t : Turn) (s : Follow) : Prop :=
  s.nextFull ≤ s.now ∧
    (fullSync json t.io t.works t.episodes s.media).1 ≠ .ok ()

def ApplyFails (json : HeaderJson) (wake : Wake) (s : Follow) : Prop :=
  match wake with
  | .elapsed _ _ io answers _ _ => s.pending.isEmpty = false ∧
      (apply json io answers s.pending s.media).1 ≠ .ok ()
  | _ => False

/-- After this wake a full comparison is due: the listener has reconnected, or
the time is up. -/
def DueAgain (wake : Wake) (s : Follow) : Prop :=
  match wake with
  | .cancelled => True
  | .received waited arrived =>
      (s.ledger.arrive arrived).next = some .reconnected ∨
        s.nextFull ≤ s.now + waited
  | .elapsed late _ _ _ took _ =>
      s.pending.isEmpty = true ∨ s.nextFull ≤ s.now + (s.quietMs + late) + took

theorem owed_syncIfDue {json : HeaderJson} {t : Turn} {s : Follow}
    (hheld : Owed Applicable s.ledger → s.nextFull ≤ s.now) :
    Owed Applicable (syncIfDue json t s).ledger ↔
      SyncFails json t s ∧ Owed Applicable s.ledger := by
  rw [syncIfDue]
  split
  · rename_i hdue
    change Owed Applicable (Ledger.arrive _ t.arrived) ↔ _
    rw [owed_arrive]
    cases hresult : (fullSync json t.io t.works t.episodes s.media).1 with
    | ok =>
        refine iff_of_false not_owed_compare ?_
        rintro ⟨⟨-, hfails⟩, -⟩
        exact hfails hresult
    | error err =>
        have hfails : SyncFails json t s := by
          refine ⟨hdue, ?_⟩
          rw [hresult]
          intro hok
          cases hok
        exact (and_iff_right hfails).symm
  · rename_i hdue
    constructor
    · intro howed
      exact absurd (hheld howed) hdue
    · exact fun h => h.2

theorem held_receive_iff {s : Follow} (hexact : Exact s)
    (hgo : (receive s).stopped = false) :
    Held (receive s) ↔ (Owed Applicable s.ledger →
      s.ledger.next = some .reconnected ∨ s.nextFull ≤ s.now) := by
  rw [held_iff (exact_receive hexact)]
  cases hnext : s.ledger.next with
  | none =>
      rw [receive, hnext] at hgo
      cases hgo
  | some event =>
      cases event with
      | changes c =>
          have hreceive : (receive s).ledger = s.ledger.receive ∧
              (receive s).nextFull = s.nextFull ∧ (receive s).now = s.now := by
            rw [receive, hnext]
            exact ⟨rfl, rfl, rfl⟩
          obtain ⟨hledger, hfull, hnow⟩ := hreceive
          rw [hledger, hfull, hnow, owed_receive hnext ⟨c, rfl⟩]
          simp
      | reconnected =>
          have hreceive : (receive s).nextFull = (receive s).now := by
            rw [receive, hnext]
          refine iff_of_true ?_ ?_
          · exact fun _ => Nat.le_of_eq hreceive
          · exact fun _ => Or.inl rfl

theorem owed_applyPending {json : HeaderJson} {io : Io}
    {answers : List JellyfinItems.Answer} {s : Follow} :
    Owed Applicable (applyPending json io answers s).ledger ↔
      Owed Applicable s.ledger ∨
        (apply json io answers s.pending s.media).1 ≠ .ok () ∧
          AtStake Applicable s.ledger := by
  rw [applyPending]
  cases (apply json io answers s.pending s.media).1 with
  | ok =>
      change Owed Applicable (s.ledger.takeBatch true) ↔ _
      rw [owed_takeBatch_true]
      simp
  | error err =>
      change Owed Applicable (s.ledger.takeBatch false) ↔ _
      rw [owed_takeBatch_false]
      simp

theorem held_wakeUp_iff {json : HeaderJson} {wake : Wake} {s : Follow}
    (hexact : Exact s) (hgo : (wakeUp json wake s).stopped = false) :
    Held (wakeUp json wake s) ↔
      (Owed Applicable s.ledger ∨
          ApplyFails json wake s ∧ AtStake Applicable s.ledger →
        DueAgain wake s) := by
  cases wake with
  | cancelled => cases hgo
  | received waited arrived =>
      have howed : Owed Applicable (s.pass waited arrived).ledger ↔
          Owed Applicable s.ledger := owed_arrive arrived
      rw [wakeUp, held_receive_iff (exact_pass hexact waited arrived) hgo, howed]
      simp only [ApplyFails, false_and, or_false]
      rfl
  | elapsed late arrived io answers took arrivedMeanwhile =>
      rw [held_iff (exact_wakeUp json _ hexact), wakeUp]
      cases hempty : s.pending.isEmpty with
      | true =>
          rw [if_pos rfl]
          refine iff_of_true ?_ fun _ => Or.inl hempty
          intro _
          change s.nextFull ≤ s.now + (waitMs s + late)
          rw [waitMs, if_pos hempty]
          omega
      | false =>
          rw [if_neg Bool.false_ne_true]
          have hwait : waitMs s = s.quietMs := by
            rw [waitMs, hempty, if_neg Bool.false_ne_true]
          have howed : Owed Applicable (Follow.pass took arrivedMeanwhile
              (applyPending json io answers
                (s.pass (waitMs s + late) arrived))).ledger ↔
              Owed Applicable s.ledger ∨
                ApplyFails json
                  (.elapsed late arrived io answers took arrivedMeanwhile) s ∧
                  AtStake Applicable s.ledger := by
            refine (owed_arrive arrivedMeanwhile).trans ?_
            refine owed_applyPending.trans ?_
            refine or_congr (owed_arrive arrived) (and_congr ?_ (atStake_arrive arrived))
            exact (and_iff_right hempty).symm
          rw [howed]
          refine imp_congr_right fun _ => ?_
          change s.nextFull ≤ s.now + (waitMs s + late) + took ↔ _ ∨ _
          rw [hwait, hempty]
          simp

/-- The turn does not lose sight of a message: when its full comparison fails
with something owed, or its update fails with something at stake, a full
comparison is due again at its end. -/
def Keeps (json : HeaderJson) (t : Turn) (s : Follow) : Prop :=
  SyncFails json t s ∧ Owed Applicable s.ledger ∨
      ApplyFails json t.wake (syncIfDue json t s) ∧
        AtStake Applicable (syncIfDue json t s).ledger →
    DueAgain t.wake (syncIfDue json t s)

theorem running_of_turn {json : HeaderJson} {t : Turn} {s : Follow}
    (h : (turn json t s).stopped = false) : s.stopped = false := by
  rw [← Bool.not_eq_true]
  intro hstopped
  rw [turn, if_pos hstopped, hstopped] at h
  cases h

theorem held_turn_iff {json : HeaderJson} {t : Turn} {s : Follow}
    (hexact : Exact s) (hheld : Held s)
    (hgo : (turn json t s).stopped = false) :
    Held (turn json t s) ↔ Keeps json t s := by
  have hrunning := running_of_turn hgo
  rw [turn, hrunning, if_neg Bool.false_ne_true] at hgo ⊢
  rw [held_wakeUp_iff (exact_syncIfDue json t hexact) hgo,
    owed_syncIfDue ((held_iff hexact).mp hheld)]
  rfl

/-- At every return to the head of the loop every received message is held. -/
def NeverLost (json : HeaderJson) (s : Follow) (turns : List Turn) : Prop :=
  ∀ past, past <+: turns → (followed json past s).stopped = false →
    Held (followed json past s)

theorem exact_start (json : HeaderJson) (cfg : MediaConfig)
    (dir : IndexFiles.Dir) (quietMs now : Nat) :
    Exact (Follow.start json cfg dir quietMs now) :=
  rfl

theorem held_start (json : HeaderJson) (cfg : MediaConfig)
    (dir : IndexFiles.Dir) (quietMs now : Nat) :
    Held (Follow.start json cfg dir quietMs now) :=
  fun _ hi => absurd hi (Nat.not_lt_zero _)

/-- The loop loses no message in exactly the runs in which every turn keeps
them. -/
theorem neverLost_iff (json : HeaderJson) (cfg : MediaConfig)
    (dir : IndexFiles.Dir) (quietMs now : Nat) (turns : List Turn) :
    NeverLost json (Follow.start json cfg dir quietMs now) turns ↔
      ∀ past t, past ++ [t] <+: turns →
        (followed json (past ++ [t])
          (Follow.start json cfg dir quietMs now)).stopped = false →
        Keeps json t
          (followed json past (Follow.start json cfg dir quietMs now)) := by
  have hexact : ∀ past, Exact (followed json past
      (Follow.start json cfg dir quietMs now)) := fun past =>
    run_invariant (fun t _ h => exact_turn json t h) past
      (exact_start json cfg dir quietMs now)
  constructor
  · intro h past t hpast hgo
    have hafter := h _ hpast hgo
    rw [followed_concat] at hgo hafter
    have hbefore := h past ((List.prefix_append past [t]).trans hpast)
      (running_of_turn hgo)
    exact (held_turn_iff (hexact past) hbefore hgo).mp hafter
  · intro h past
    apply prefix_induct
    · exact fun _ => held_start json cfg dir quietMs now
    · intro past t hpast ih hgo
      have hkeeps := h past t hpast hgo
      rw [followed_concat] at hgo ⊢
      have hbefore := ih (running_of_turn hgo)
      exact (held_turn_iff (hexact past) hbefore hgo).mpr hkeeps

def cocoAdded : JsonValue.Value :=
  .object
    [("MessageType", .string "LibraryChanged"),
      ("Data", .object [("ItemsAdded", .array [.string "m2"])])]

/-- The first comparison works, the message comes in, and after the quiet time
Jellyfin does not answer the request of the update. -/
def outageTurns : List Turn :=
  [{ io := goodIo
     works := [answerFrom duneLibrary]
     episodes := []
     took := 1000
     arrived := []
     wake := .received 5000 (listenOnce true [cocoAdded]) },
    { io := goodIo
      works := []
      episodes := []
      took := 0
      arrived := []
      wake := .elapsed 0 [] goodIo [] 10 [] }]

theorem listenOnce_cocoAdded : listenOnce true [cocoAdded] =
    [.changes { changed := ["m2"], removed := [] }] := by
  have hsort : ["m2"].mergeSort (fun a b : String => decide (a ≤ b)) =
      ["m2"] := List.mergeSort_singleton "m2"
  have hchanges : libraryChanges cocoAdded =
      some { changed := ["m2"], removed := [] } := by
    rw [libraryChanges]
    change (if _ then none else
      some (Changes.mk (dedup (["m2"].mergeSort _)) _)) = _
    rw [hsort]
    decide
  simp [listenOnce, hchanges, Changes.isEmpty]

def outage : Follow :=
  followed compactJson outageTurns
    (Follow.start compactJson testConfig (fun _ => none) 20000 0)

set_option maxRecDepth 2000 in
/-- The change is neither covered nor pending, and the next full comparison is
almost six hours away. -/
theorem not_neverLost_outageTurns :
    outage.ledger.received = 1 ∧ outage.pending.isEmpty = true ∧
      outage.nextFull - outage.now = 21574990 ∧
      ¬NeverLost compactJson
        (Follow.start compactJson testConfig (fun _ => none) 20000 0)
        outageTurns := by
  have hledger : (outage.ledger.compared, outage.ledger.applied,
      outage.ledger.batchFrom, outage.ledger.received, outage.stopped) =
      (0, [], 1, 1, false) := by
    rw [outage, outageTurns, listenOnce_cocoAdded]
    decide
  have htimes : (outage.pending.isEmpty, outage.nextFull, outage.now) =
      (true, 21601000, 26010) := by
    rw [outage, outageTurns, listenOnce_cocoAdded]
    decide
  simp only [Prod.mk.injEq] at hledger htimes
  obtain ⟨hcompared, happlied, hfrom, hreceived, hstopped⟩ := hledger
  obtain ⟨hpending, hfull, hnow⟩ := htimes
  refine ⟨hreceived, hpending, by rw [hfull, hnow], ?_⟩
  intro h
  have hzero : 0 < outage.ledger.received := by
    rw [hreceived]
    exact Nat.one_pos
  rcases h outageTurns (List.prefix_refl _) hstopped 0 hzero with
    (hlt | ⟨hmem, -⟩) | ⟨hle, -⟩ | hdue
  · change 0 < outage.ledger.compared at hlt
    omega
  · change 0 ∈ outage.ledger.applied at hmem
    rw [happlied] at hmem
    cases hmem
  · change outage.ledger.batchFrom ≤ 0 at hle
    omega
  · change outage.nextFull ≤ outage.now at hdue
    omega

end AssistantHub.FollowCoverage
