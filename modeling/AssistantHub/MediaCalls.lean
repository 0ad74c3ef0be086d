import AssistantHub.MediaOutcome
import AssistantHub.RunPrefixes

namespace AssistantHub.MediaCalls

open AssistantHub.Chunks
open AssistantHub.CrashSteps
open AssistantHub.Fallible
open AssistantHub.HeaderEncoding
open AssistantHub.IndexStore
open AssistantHub.JellyfinItems
open AssistantHub.MediaDocs
open AssistantHub.MediaOutcome
open AssistantHub.MediaSync
open AssistantHub.RunPrefixes

/-- A call of the media index with all that the outside answers to it. -/
inductive Call where
  | fullSync (io : Io) (works episodes : List Answer)
  | apply (io : Io) (answers : List Answer) (changes : Changes)

def Call.run (json : HeaderJson) :
    Call → MediaIndex → Except Error Unit × MediaIndex
  | .fullSync io works episodes, m => MediaSync.fullSync json io works episodes m
  | .apply io answers changes, m => MediaSync.apply json io answers changes m

def Call.io : Call → Io
  | .fullSync io _ _ => io
  | .apply io _ _ => io

def Call.isFullSync : Call → Bool
  | .fullSync _ _ _ => true
  | .apply _ _ _ => false

/-- What a call is about to remove and the documents it has read, once its
requests are answered. -/
def Call.plan (c : Call) (m : MediaIndex) :
    Except Error (List String × List Doc) :=
  match c with
  | .fullSync _ works episodes =>
      (fetchItems m.cfg works episodes).map fun items =>
        (goneIds m.index (items.filterMap document), items.filterMap document)
  | .apply _ answers changes =>
      (fetchChanged (changeTypes m.cfg) changeFields answers
        (chunks 100 changes.changed)).map fun docs => (changes.removed, docs)

/-- What a call does after everything is stored. -/
def Call.finish (c : Call) (m : MediaIndex) : MediaIndex :=
  match c with
  | .fullSync io _ _ => { m with lastFullSync := some io.now, state := .ready }
  | .apply _ _ _ => m

theorem run_of_plan_error {c : Call} {m : MediaIndex} {err : Error}
    (h : c.plan m = .error err) (json : HeaderJson) :
    c.run json m = (.error err, m) := by
  cases c with
  | fullSync io works episodes =>
      rw [Call.run, fullSync]
      rw [Call.plan] at h
      cases hitems : fetchItems m.cfg works episodes with
      | error err' =>
          rw [hitems] at h
          obtain rfl := Except.error.inj h
          rfl
      | ok items =>
          rw [hitems] at h
          cases h
  | apply io answers changes =>
      rw [Call.run, apply]
      rw [Call.plan] at h
      cases hdocs : fetchChanged (changeTypes m.cfg) changeFields answers
          (chunks 100 changes.changed) with
      | error err' =>
          rw [hdocs] at h
          obtain rfl := Except.error.inj h
          rfl
      | ok docs =>
          rw [hdocs] at h
          cases h

/-- Both operations end the same way: they store their changes. -/
theorem run_of_plan_ok {c : Call} {m : MediaIndex} {ids : List String}
    {docs : List Doc} (h : c.plan m = .ok (ids, docs)) (json : HeaderJson) :
    c.run json m = andThen (storeChanges json c.io ids docs m) fun m =>
      (.ok (), c.finish m) := by
  cases c with
  | fullSync io works episodes =>
      rw [Call.run, fullSync]
      rw [Call.plan] at h
      cases hitems : fetchItems m.cfg works episodes with
      | error err =>
          rw [hitems] at h
          cases h
      | ok items =>
          rw [hitems] at h
          obtain ⟨rfl, rfl⟩ := Prod.mk.inj (Except.ok.inj h)
          rfl
  | apply io answers changes =>
      rw [Call.run, apply]
      rw [Call.plan] at h
      cases hdocs : fetchChanged (changeTypes m.cfg) changeFields answers
          (chunks 100 changes.changed) with
      | error err =>
          rw [hdocs] at h
          cases h
      | ok docs' =>
          rw [hdocs] at h
          obtain ⟨rfl, rfl⟩ := Prod.mk.inj (Except.ok.inj h)
          exact (andThen_ok_self _).symm

theorem exists_plan_of_ok {c : Call} {m : MediaIndex} {json : HeaderJson}
    (hok : (c.run json m).1 = .ok ()) : ∃ ids docs, c.plan m = .ok (ids, docs) := by
  cases hplan : c.plan m with
  | error err =>
      rw [run_of_plan_error hplan] at hok
      cases hok
  | ok plan => exact ⟨plan.1, plan.2, rfl⟩

theorem sound_run {m : MediaIndex} (h : Sound m) (json : HeaderJson) (c : Call) :
    Sound (c.run json m).2 := by
  cases c with
  | fullSync io works episodes => exact sound_fullSync h json io works episodes
  | apply io answers changes => exact sound_apply h json io answers changes

theorem frame_run (json : HeaderJson) (c : Call) (m : MediaIndex) :
    frame (c.run json m).2 = frame m := by
  cases c with
  | fullSync io works episodes => exact frame_fullSync json io works episodes m
  | apply io answers changes => exact frame_apply json io answers changes m

def after (json : HeaderJson) (calls : List Call) (m : MediaIndex) : MediaIndex :=
  run (fun c m => (c.run json m).2) calls m

theorem after_concat (json : HeaderJson) (calls : List Call) (c : Call)
    (m : MediaIndex) :
    after json (calls ++ [c]) m = (c.run json (after json calls m)).2 :=
  run_concat _ calls c m

theorem sound_after {m : MediaIndex} (h : Sound m) (json : HeaderJson)
    (calls : List Call) : Sound (after json calls m) :=
  run_invariant (p := Sound) (fun c _ ha => sound_run ha json c) calls h

/-- `run` reports a full comparison that fails over an empty index. -/
def noteFailure (result : Except Error Unit × MediaIndex) : MediaIndex :=
  match result.1 with
  | .ok () => result.2
  | .error err =>
      if result.2.index.entries.isEmpty then
        { result.2 with state := .failed err }
      else result.2

def issue (json : HeaderJson) : Call → MediaIndex → MediaIndex
  | .fullSync io works episodes, m =>
      noteFailure (MediaSync.fullSync json io works episodes m)
  | .apply io answers changes, m => (MediaSync.apply json io answers changes m).2

theorem noteFailure_of_error {result : Except Error Unit × MediaIndex}
    {err : Error} (herr : result.1 = .error err) :
    noteFailure result =
      if result.2.index.entries.isEmpty then
        { result.2 with state := .failed err }
      else result.2 := by
  rw [noteFailure, herr]

/-- Only the reported state can differ from what the call itself leaves. -/
theorem noteFailure_eq (result : Except Error Unit × MediaIndex) :
    ∃ state, noteFailure result = { result.2 with state := state } := by
  rw [noteFailure]
  split
  · exact ⟨_, rfl⟩
  · split
    · exact ⟨_, rfl⟩
    · exact ⟨_, rfl⟩

theorem issue_eq (json : HeaderJson) (c : Call) (m : MediaIndex) :
    ∃ state, issue json c m = { (c.run json m).2 with state := state } := by
  cases c with
  | fullSync io works episodes => exact noteFailure_eq _
  | apply io answers changes => exact ⟨_, rfl⟩

theorem sound_issue {m : MediaIndex} (h : Sound m) (json : HeaderJson)
    (c : Call) : Sound (issue json c m) := by
  obtain ⟨state, heq⟩ := issue_eq json c m
  have hrun := sound_run h json c
  rw [heq]
  exact ⟨hrun.wellFormed, hrun.dims_eq⟩

theorem frame_issue (json : HeaderJson) (c : Call) (m : MediaIndex) :
    frame (issue json c m) = frame m := by
  obtain ⟨state, heq⟩ := issue_eq json c m
  rw [heq]
  exact frame_run json c m

def issued (json : HeaderJson) (calls : List Call) (m : MediaIndex) : MediaIndex :=
  run (issue json) calls m

theorem issued_concat (json : HeaderJson) (calls : List Call) (c : Call)
    (m : MediaIndex) :
    issued json (calls ++ [c]) m = issue json c (issued json calls m) :=
  run_concat _ calls c m

theorem sound_issued {m : MediaIndex} (h : Sound m) (json : HeaderJson)
    (calls : List Call) : Sound (issued json calls m) :=
  run_invariant (p := Sound) (fun c _ ha => sound_issue ha json c) calls h

theorem frame_issued (json : HeaderJson) (calls : List Call) (m : MediaIndex) :
    frame (issued json calls m) = frame m :=
  run_invariant (p := fun a => frame a = frame m)
    (fun c a ha => (frame_issue json c a).trans ha) calls rfl

/-- What `run` starts from: the model is loaded, and the saved index is read
back if there is one. -/
def startIndex (json : HeaderJson) (cfg : MediaConfig) (dir : IndexFiles.Dir) :
    MediaIndex :=
  let m := { MediaIndex.new cfg dir with worker := true }
  match loadIndex json m with
  | some saved => { m with index := saved }
  | none => m

end AssistantHub.MediaCalls
