import AssistantHub.Histories
import AssistantHub.WyomingVoice
import Mathlib.Data.List.DropRight

namespace AssistantHub.Utterances

open AssistantHub.Fallible
open AssistantHub.Histories
open AssistantHub.JsonValue
open AssistantHub.KeyRuns
open AssistantHub.LittleEndian
open AssistantHub.PcmAudio
open AssistantHub.WyomingFrames
open AssistantHub.WyomingVoice

def isBoundary (e : Event) : Bool := e.kind = "audio-start" || e.kind = "audio-stop"

/-- The format that the last audio-start sets. -/
def stickyFormat (past : List Event) : Format :=
  (latest (fun e =>
    if e.kind = "audio-start" then some (formatOf e.data Format.stt) else none)
    past).getD Format.stt

/-- The events since the last audio-start or audio-stop. -/
def utterance (past : List Event) : List Event :=
  past.rtakeWhile fun e => !isBoundary e

def chunkOf (fallback : Format) (e : Event) : Option (Format × Bytes) :=
  if e.kind = "audio-chunk" then
    e.payload.map fun p => (formatOf e.data fallback, p)
  else none

/-- The maximal runs of equal chunk format in the utterance. -/
def audioRuns (past : List Event) : List (Format × Bytes) :=
  runs ((utterance past).filterMap (chunkOf (stickyFormat past)))

def stopCount (past : List Event) : Nat :=
  past.countP fun e => e.kind = "audio-stop"

/-- The runs of each utterance that an audio-stop ends. -/
def stopRuns : List Event → List Event → List (List (Format × Bytes))
  | _, [] => []
  | past, e :: events =>
      if e.kind = "audio-stop" then audioRuns past :: stopRuns (past ++ [e]) events
      else stopRuns (past ++ [e]) events

def transcriptText (e : Event) : Option String :=
  if e.kind = "transcript" then (e.data.lookup "text").bind Value.asStr else none

def transcripts (voice : Voice) (events : List Event) : List String :=
  (serve voice events .start).2.1.filterMap transcriptText

/-- The transcripts of the utterances, up to the first that fails. -/
def expected (voice : Voice) : Nat → List (List (Format × Bytes)) → List String
  | _, [] => []
  | call, audio :: rest =>
      match heard voice call (pcmOf audio) with
      | .ok text => text :: expected voice (call + 1) rest
      | .error _ => []

/-- No speech fails, so that only a failed transcript ends a connection. -/
def SpeechWorks (voice : Voice) : Prop :=
  ∀ call data, ∃ answer, synthesized voice call data = .ok answer

structure Tracks (past : List Event) (c : Connection) : Prop where
  format_eq : c.format = stickyFormat past
  audio_eq : c.audio = audioRuns past
  stops_eq : c.stops = stopCount past

section Histories

variable {past : List Event} {e : Event}

theorem stickyFormat_start (h : e.kind = "audio-start") :
    stickyFormat (past ++ [e]) = formatOf e.data Format.stt := by
  simp [stickyFormat, h]

theorem stickyFormat_other (h : e.kind ≠ "audio-start") :
    stickyFormat (past ++ [e]) = stickyFormat past := by
  rw [stickyFormat, latest_concat, if_neg h]
  rfl

theorem audioRuns_boundary (h : isBoundary e = true) : audioRuns (past ++ [e]) = [] := by
  rw [audioRuns, utterance, List.rtakeWhile_concat_neg _ _ _ (by simp [h])]
  rfl

theorem audioRuns_chunk {p : Bytes} (hkind : e.kind = "audio-chunk")
    (hpayload : e.payload = some p) :
    audioRuns (past ++ [e]) =
      merge (audioRuns past) (formatOf e.data (stickyFormat past), p) := by
  have hboundary : isBoundary e = false := by simp [isBoundary, hkind]
  rw [audioRuns, stickyFormat_other (by rw [hkind]; decide), utterance,
    List.rtakeWhile_concat_pos _ _ _ (by simp [hboundary]), List.filterMap_append]
  simp only [List.filterMap_cons, List.filterMap_nil, chunkOf, hkind, hpayload,
    if_true, Option.map_some]
  exact runs_concat _ _

theorem audioRuns_other (hboundary : isBoundary e = false)
    (hchunk : e.kind = "audio-chunk" → e.payload = none) :
    audioRuns (past ++ [e]) = audioRuns past := by
  have hstart : e.kind ≠ "audio-start" := by
    intro h
    simp [isBoundary, h] at hboundary
  have hnone : chunkOf (stickyFormat past) e = none := by
    rw [chunkOf]
    split
    · rename_i hkind
      rw [hchunk hkind]
      rfl
    · rfl
  rw [audioRuns, stickyFormat_other hstart, utterance,
    List.rtakeWhile_concat_pos _ _ _ (by simp [hboundary]), List.filterMap_append,
    List.filterMap_cons, hnone, List.filterMap_nil, List.append_nil]
  rfl

theorem stopCount_concat (past : List Event) (e : Event) :
    stopCount (past ++ [e]) =
      if e.kind = "audio-stop" then stopCount past + 1 else stopCount past := by
  simp only [stopCount, List.countP_append, List.countP_singleton]
  split <;> simp_all

end Histories

section Serving

variable {voice : Voice} {past : List Event} {e : Event} {c c' : Connection}
  {answer : List Event}

theorem tracks_start : Tracks [] .start := ⟨rfl, rfl, rfl⟩

/-- An event that neither the format nor the audio depends on. -/
theorem Tracks.other (h : Tracks past c) (hboundary : isBoundary e = false)
    (hchunk : e.kind = "audio-chunk" → e.payload = none) (speeches : Nat) :
    Tracks (past ++ [e]) { c with speeches := speeches } where
  format_eq := by
    rw [stickyFormat_other]
    · exact h.format_eq
    · intro hkind
      simp [isBoundary, hkind] at hboundary
  audio_eq := by
    rw [audioRuns_other hboundary hchunk]
    exact h.audio_eq
  stops_eq := by
    rw [stopCount_concat, if_neg]
    · exact h.stops_eq
    · intro hkind
      simp [isBoundary, hkind] at hboundary

theorem tracks_served (h : Tracks past c) (hserved : Served voice e c c' answer) :
    Tracks (past ++ [e]) c' := by
  cases hserved with
  | describe hkind =>
      exact h.other (by simp [isBoundary, hkind]) (by simp [hkind]) c.speeches
  | start hkind =>
      refine ⟨(stickyFormat_start hkind).symm, ?_, ?_⟩
      · exact (audioRuns_boundary (by simp [isBoundary, hkind])).symm
      · rw [stopCount_concat, if_neg (by rw [hkind]; decide)]
        exact h.stops_eq
  | chunk hkind hpayload =>
      refine ⟨?_, ?_, ?_⟩
      · rw [stickyFormat_other (by rw [hkind]; decide)]
        exact h.format_eq
      · rw [audioRuns_chunk hkind hpayload, ← h.format_eq, ← h.audio_eq]
      · rw [stopCount_concat, if_neg (by rw [hkind]; decide)]
        exact h.stops_eq
  | stop hkind htext =>
      refine ⟨?_, ?_, ?_⟩
      · rw [stickyFormat_other (by rw [hkind]; decide)]
        exact h.format_eq
      · exact (audioRuns_boundary (by simp [isBoundary, hkind])).symm
      · rw [stopCount_concat, if_pos hkind, h.stops_eq]
  | speak hkind hanswer =>
      exact h.other (by simp [isBoundary, hkind]) (by simp [hkind]) _
  | ignored hdescribe hstart hchunk hstop hspeak =>
      exact h.other (by simp [isBoundary, hstart, hstop]) hchunk c.speeches

theorem tracks_serve {events out : List Event} (h : Tracks past c)
    (hserve : serve voice events c = (c', out, none)) : Tracks (past ++ events) c' := by
  induction events generalizing past c out with
  | nil =>
      rw [serve] at hserve
      obtain ⟨rfl, -⟩ := Prod.mk.inj hserve
      rwa [List.append_nil]
  | cons e events ih =>
      rw [serve] at hserve
      split at hserve
      · simp at hserve
      · rename_i c₁ answer hevent
        have htracks := tracks_served h (served_of_ok hevent)
        have hrest : serve voice events c₁ =
            (c', (serve voice events c₁).2.1, none) := by
          simp only [Prod.mk.injEq] at hserve
          obtain ⟨hc, -, herr⟩ := hserve
          rw [← hc, ← herr]
        rw [← List.singleton_append, ← List.append_assoc]
        exact ih htracks hrest

theorem transcripts_speech (fmt : Format) (pcm : Bytes) :
    (speech fmt pcm).filterMap transcriptText = [] := by
  rw [List.filterMap_eq_nil_iff]
  intro e he
  simp only [speech, List.cons_append, List.mem_cons, List.mem_append,
    List.mem_map, List.not_mem_nil, or_false] at he
  obtain rfl | ⟨chunk, -, rfl⟩ | rfl := he <;> rfl

theorem transcripts_synthesized {call : Nat} {data : JsonMap}
    (h : synthesized voice call data = .ok answer) :
    answer.filterMap transcriptText = [] := by
  rw [synthesized] at h
  split at h
  · obtain rfl := Except.ok.inj h
    rfl
  · obtain ⟨wav, -, h⟩ := bind_eq_ok.mp h
    obtain ⟨⟨fmt, pcm⟩, -, h⟩ := bind_eq_ok.mp h
    obtain rfl := Except.ok.inj h
    exact transcripts_speech fmt pcm

theorem transcripts_served (hserved : Served voice e c c' answer)
    (hkind : e.kind ≠ "audio-stop") :
    answer.filterMap transcriptText = [] ∧ c'.stops = c.stops := by
  cases hserved with
  | stop hstop => exact absurd hstop hkind
  | speak _ hanswer => exact ⟨transcripts_synthesized hanswer, rfl⟩
  | describe | start | chunk | ignored => exact ⟨rfl, rfl⟩

/-- The transcripts are the first ones that are expected, and all of them
unless a speech fails. -/
theorem transcripts_serve (h : Tracks past c) (events : List Event) :
    (serve voice events c).2.1.filterMap transcriptText <+:
        expected voice c.stops (stopRuns past events) ∧
      (SpeechWorks voice →
        (serve voice events c).2.1.filterMap transcriptText =
          expected voice c.stops (stopRuns past events)) := by
  induction events generalizing past c with
  | nil => exact ⟨List.nil_prefix, fun _ => rfl⟩
  | cons e events ih =>
      rw [serve]
      cases hevent : serveEvent voice e c with
      | error err =>
          refine ⟨List.nil_prefix, ?_⟩
          intro hworks
          rcases failed_of_error hevent with ⟨hkind, herr⟩ | ⟨-, herr⟩
          · rw [stopRuns, if_pos hkind, expected, ← h.audio_eq, herr]
            rfl
          · obtain ⟨answer, hanswer⟩ := hworks c.speeches e.data
            rw [hanswer] at herr
            cases herr
      | ok served =>
          obtain ⟨c₁, answer⟩ := served
          have hserved := served_of_ok hevent
          have htracks := tracks_served h hserved
          obtain ⟨hpast, heq⟩ := ih htracks
          simp only [List.filterMap_append]
          by_cases hkind : e.kind = "audio-stop"
          · rw [serveEvent_stop hkind] at hevent
            obtain ⟨text, htext, hok⟩ := bind_eq_ok.mp hevent
            obtain ⟨rfl, rfl⟩ := Prod.mk.inj (Except.ok.inj hok)
            rw [stopRuns, if_pos hkind, expected, ← h.audio_eq, htext]
            refine ⟨List.cons_prefix_cons.mpr ⟨rfl, hpast⟩, ?_⟩
            intro hworks
            exact congrArg (text :: ·) (heq hworks)
          · obtain ⟨hnone, hstops⟩ := transcripts_served hserved hkind
            rw [stopRuns, if_neg hkind, hnone, ← hstops]
            exact ⟨hpast, heq⟩

end Serving

section TwoRuns

def audioChunk (data : JsonMap) (p : Bytes) : Event := ⟨"audio-chunk", data, some p⟩

/-- Two sequences of events with the same audio: chunks are cut elsewhere, and
other events come in between. -/
inductive Recut : List Event → List Event → Prop where
  | cut {before after : List Event} {data : JsonMap} {p q : Bytes} :
      Recut (before ++ audioChunk data (p ++ q) :: after)
        (before ++ audioChunk data p :: audioChunk data q :: after)
  | other {before after : List Event} {e : Event} : isBoundary e = false →
      e.kind ≠ "audio-chunk" → Recut (before ++ e :: after) (before ++ after)
  | refl {events : List Event} : Recut events events
  | symm {events events' : List Event} : Recut events events' → Recut events' events
  | trans {events events' events'' : List Event} : Recut events events' →
      Recut events' events'' → Recut events events''

/-- Histories that a later event cannot tell apart. -/
structure Alike (past past' : List Event) : Prop where
  format_eq : stickyFormat past = stickyFormat past'
  runs_eq : audioRuns past = audioRuns past'

theorem Alike.concat {past past' : List Event} (h : Alike past past') (e : Event) :
    Alike (past ++ [e]) (past' ++ [e]) := by
  constructor
  · rw [stickyFormat, stickyFormat, latest_concat, latest_concat]
    split
    · rfl
    · exact h.format_eq
  · cases hboundary : isBoundary e with
    | true => rw [audioRuns_boundary hboundary, audioRuns_boundary hboundary]
    | false =>
        by_cases hchunk : e.kind = "audio-chunk" → e.payload = none
        · rw [audioRuns_other hboundary hchunk, audioRuns_other hboundary hchunk,
            h.runs_eq]
        · obtain ⟨hkind, hpayload⟩ := Classical.not_imp.mp hchunk
          obtain ⟨p, hp⟩ := Option.ne_none_iff_exists'.mp hpayload
          rw [audioRuns_chunk hkind hp, audioRuns_chunk hkind hp, h.runs_eq,
            h.format_eq]

theorem Alike.append {past past' : List Event} (h : Alike past past')
    (later : List Event) : Alike (past ++ later) (past' ++ later) := by
  induction later generalizing past past' with
  | nil => simpa using h
  | cons e later ih =>
      rw [← List.singleton_append, ← List.append_assoc, ← List.append_assoc]
      exact ih (h.concat e)

theorem stopRuns_alike {past past' : List Event} (h : Alike past past')
    (events : List Event) : stopRuns past events = stopRuns past' events := by
  induction events generalizing past past' with
  | nil => rfl
  | cons e events ih =>
      rw [stopRuns, stopRuns, h.runs_eq, ih (h.concat e)]

theorem stopRuns_append (past before events : List Event) :
    stopRuns past (before ++ events) =
      stopRuns past before ++ stopRuns (past ++ before) events := by
  induction before generalizing past with
  | nil => simp [stopRuns]
  | cons e before ih =>
      rw [List.cons_append, stopRuns, stopRuns, ih, List.append_assoc,
        List.singleton_append]
      split
      · rfl
      · rfl

theorem alike_cut (past : List Event) (data : JsonMap) (p q : Bytes) :
    Alike (past ++ [audioChunk data (p ++ q)])
      (past ++ [audioChunk data p] ++ [audioChunk data q]) := by
  have hstart : ∀ p, (audioChunk data p).kind ≠ "audio-start" := by
    simp [audioChunk]
  constructor
  · rw [stickyFormat_other (hstart _), stickyFormat_other (hstart _),
      stickyFormat_other (hstart _)]
  · rw [audioRuns_chunk rfl rfl, audioRuns_chunk rfl rfl, audioRuns_chunk rfl rfl,
      stickyFormat_other (hstart _)]
    exact (merge_cut _ _ p q).symm

theorem alike_other (past : List Event) {e : Event} (hboundary : isBoundary e = false)
    (hchunk : e.kind ≠ "audio-chunk") : Alike (past ++ [e]) past := by
  constructor
  · rw [stickyFormat_other]
    intro hkind
    simp [isBoundary, hkind] at hboundary
  · exact audioRuns_other hboundary fun hkind => absurd hkind hchunk

theorem stopRuns_recut {events events' : List Event} (h : Recut events events') :
    stopRuns [] events = stopRuns [] events' := by
  induction h with
  | @cut before after data p q =>
      have hstop : ∀ p, (audioChunk data p).kind ≠ "audio-stop" := by
        simp [audioChunk]
      rw [stopRuns_append, stopRuns_append, stopRuns, stopRuns, stopRuns,
        if_neg (hstop _), if_neg (hstop _), if_neg (hstop _),
        stopRuns_alike (alike_cut _ _ _ _)]
  | @other before after e hboundary hchunk =>
      have hstop : e.kind ≠ "audio-stop" := by
        intro hkind
        simp [isBoundary, hkind] at hboundary
      rw [stopRuns_append, stopRuns_append, stopRuns, if_neg hstop,
        stopRuns_alike (alike_other _ hboundary hchunk)]
  | refl => rfl
  | symm _ ih => exact ih.symm
  | trans _ _ ih ih' => exact ih.trans ih'

end TwoRuns

theorem getElem?_of_prefix {α : Type*} {l l' : List α} (h : l <+: l') {k : Nat}
    {a : α} (ha : l[k]? = some a) : l'[k]? = some a := by
  obtain ⟨hk, rfl⟩ := List.getElem?_eq_some_iff.mp ha
  rw [List.getElem?_eq_some_iff]
  exact ⟨hk.trans_le h.length_le, (h.getElem hk).symm⟩

/-- Each audio-stop hands over what its own utterance says. Sequences with the
same runs have the same transcripts, as far as both of them come. -/
theorem transcripts_of_utterances (voice : Voice) (events : List Event) :
    (∀ past e c out, past ++ [e] <+: events →
      serve voice past .start = (c, out, none) → e.kind = "audio-stop" →
      let pcm := (audioRuns past).flatMap fun run =>
        toMonoI16 run.2 run.1 sttRate
      serveEvent voice e c = (do
        let text ←
          (if pcm = [] then .ok "" else voice.transcribe (stopCount past) pcm)
        return ({ c with audio := [], stops := stopCount past + 1 },
          [transcript text]))) ∧
    (∀ events', stopRuns [] events = stopRuns [] events' →
      (SpeechWorks voice → transcripts voice events = transcripts voice events') ∧
      ∀ (k : Nat) text text', (transcripts voice events)[k]? = some text →
        (transcripts voice events')[k]? = some text' → text = text') ∧
    (∀ events', Recut events events' → stopRuns [] events = stopRuns [] events') ∧
    ∀ past past' boundary later, isBoundary boundary = true →
      stickyFormat (past ++ [boundary]) = stickyFormat (past' ++ [boundary]) →
      audioRuns (past ++ boundary :: later) = audioRuns (past' ++ boundary :: later) := by
  refine ⟨?_, ?_, fun events' => stopRuns_recut, ?_⟩
  · intro past e c out _ hserve hkind pcm
    have htracks := tracks_serve tracks_start hserve
    rw [List.nil_append] at htracks
    have hpcm : pcmOf (audioRuns past) = pcm := rfl
    rw [serveEvent_stop hkind, htracks.audio_eq, htracks.stops_eq, hpcm, heard]
  · intro events' hruns
    obtain ⟨hpast, heq⟩ := @transcripts_serve voice [] _ tracks_start events
    obtain ⟨hpast', heq'⟩ := @transcripts_serve voice [] _ tracks_start events'
    rw [← hruns] at hpast' heq'
    constructor
    · intro hworks
      exact (heq hworks).trans (heq' hworks).symm
    · intro k text text' htext htext'
      have h := getElem?_of_prefix hpast htext
      have h' := getElem?_of_prefix hpast' htext'
      exact Option.some.inj (h.symm.trans h')
  · intro past past' boundary later hboundary hformat
    have halike : Alike (past ++ [boundary]) (past' ++ [boundary]) :=
      ⟨hformat, by rw [audioRuns_boundary hboundary, audioRuns_boundary hboundary]⟩
    have hruns := (halike.append later).runs_eq
    rwa [List.append_assoc, List.append_assoc] at hruns

theorem speechWorks_fakeVoice : SpeechWorks fakeVoice := by
  intro call data
  rw [synthesized]
  split
  · exact ⟨_, rfl⟩
  · exact ⟨_, bind_eq_ok.mpr ⟨_, rfl, bind_eq_ok.mpr ⟨_, parseWav_shortWav, rfl⟩⟩⟩

def stereo : JsonMap :=
  fieldsOf (.object [("rate", number 16000), ("width", number 2),
    ("channels", number 2)])

def stop : Event := Event.new "audio-stop" .null

/-- The same eight bytes, once cut in the middle of a sample. -/
theorem transcripts_of_utterances_stereo :
    transcripts fakeVoice [audioChunk stereo [1, 0, 3, 0, 5, 0, 7, 0], stop] =
      transcripts fakeVoice
        [audioChunk stereo [1, 0, 3], describe, audioChunk stereo [0, 5, 0, 7, 0],
          stop] :=
  ((transcripts_of_utterances fakeVoice _).2.1 _ rfl).1 speechWorks_fakeVoice

end AssistantHub.Utterances
