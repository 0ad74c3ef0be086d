import AssistantHub.KeyRuns
import AssistantHub.PcmAudio
import AssistantHub.SpokenText
import AssistantHub.WyomingFrames

namespace AssistantHub.WyomingVoice

open AssistantHub.Chunks
open AssistantHub.Fallible
open AssistantHub.JsonValue
open AssistantHub.KeyRuns
open AssistantHub.LittleEndian
open AssistantHub.PcmAudio
open AssistantHub.SortedMaps
open AssistantHub.SpokenText
open AssistantHub.WyomingFrames

/-- Samples per TTS audio chunk. -/
def chunkSamples : Nat := 4096

def sttRate : UInt32 := 16000

/-- The engines of a connection. Their answers may depend on how many calls
there were before. -/
structure Voice where
  transcribe (call : Nat) (pcm : List Int16) : Except String String
  synthesize (call : Nat) (text : String) (voice : Option String) :
    Except String Bytes
  regex : Regex
  info : Value

def formatOf (data : JsonMap) (fallback : Format) : Format :=
  let get := fun key => (data.lookup key).bind Value.asU64
  { rate := ((get "rate").map UInt64.toUInt32).getD fallback.rate
    width := ((get "width").map UInt64.toUInt16).getD fallback.width
    channels := ((get "channels").map UInt64.toUInt16).getD fallback.channels }

/-- The audio as received, one segment per format, and how often each engine
was to be called. -/
structure Connection where
  format : Format
  audio : List (Format × Bytes)
  stops : Nat
  speeches : Nat

def Connection.start : Connection :=
  { format := Format.stt, audio := [], stops := 0, speeches := 0 }

def pcmOf (audio : List (Format × Bytes)) : List Int16 :=
  audio.flatMap fun segment => toMonoI16 segment.2 segment.1 sttRate

def transcript (text : String) : Event :=
  Event.new "transcript" (.object [("text", .string text)])

def audioStop : Event := Event.new "audio-stop" (.object [("timestamp", .null)])

/-- What the audio-start and the chunks of a speech say of it. -/
def audioData (fmt : Format) : Value :=
  .object [("rate", number fmt.rate.toNat), ("width", number fmt.width.toNat),
    ("channels", number fmt.channels.toNat), ("timestamp", .null)]

def chunkBytes (fmt : Format) : Nat :=
  chunkSamples * fmt.width.toNat * fmt.channels.toNat

def speech (fmt : Format) (pcm : Bytes) : List Event :=
  Event.new "audio-start" (audioData fmt) ::
    ((chunks (max 1 (chunkBytes fmt)) pcm).map fun chunk =>
      (Event.new "audio-chunk" (audioData fmt)).withPayload chunk) ++
    [audioStop]

/-- The text to transcribe to; no audio is the empty text. -/
def heard (voice : Voice) (call : Nat) (pcm : List Int16) : Except String String :=
  if pcm = [] then .ok "" else voice.transcribe call pcm

def voiceName (data : JsonMap) : Option String :=
  (data.lookup "voice").bind fun v =>
    ((v.get "name").bind Value.asStr).or ((v.get "language").bind Value.asStr)

def textOf (voice : Voice) (data : JsonMap) : String :=
  speakable voice.regex (((data.lookup "text").bind Value.asStr).getD "")

def synthesized (voice : Voice) (call : Nat) (data : JsonMap) :
    Except String (List Event) :=
  let text := textOf voice data
  if text = "" then .ok [audioStop]
  else do
    let wav ← voice.synthesize call text (voiceName data)
    let (fmt, pcm) ← parseWav wav
    return speech fmt pcm

/-- One event of the client: the connection after it and the answer. -/
def serveEvent (voice : Voice) (e : Event) (c : Connection) :
    Except String (Connection × List Event) :=
  if e.kind = "describe" then .ok (c, [Event.new "info" voice.info])
  else if e.kind = "audio-start" then
    .ok ({ c with format := formatOf e.data Format.stt, audio := [] }, [])
  else if e.kind = "audio-chunk" then
    match e.payload with
    | some p =>
        .ok ({ c with audio := merge c.audio (formatOf e.data c.format, p) }, [])
    | none => .ok (c, [])
  else if e.kind = "audio-stop" then do
    let text ← heard voice c.stops (pcmOf c.audio)
    return ({ c with audio := [], stops := c.stops + 1 }, [transcript text])
  else if e.kind = "synthesize" then do
    let answer ← synthesized voice c.speeches e.data
    return ({ c with speeches := c.speeches + 1 }, answer)
  else .ok (c, [])

/-- Serves one connection until the client closes it or an engine fails: the
connection then, what was written, and the error. -/
def serve (voice : Voice) :
    List Event → Connection → Connection × List Event × Option String
  | [], c => (c, [], none)
  | e :: events, c =>
      match serveEvent voice e c with
      | .error err => (c, [], some err)
      | .ok (c', answer) =>
          let rest := serve voice events c'
          (rest.1, answer ++ rest.2.1, rest.2.2)

/-- What an event does when no engine fails. -/
inductive Served (voice : Voice) (e : Event) (c : Connection) :
    Connection → List Event → Prop where
  | describe : e.kind = "describe" →
      Served voice e c c [Event.new "info" voice.info]
  | start : e.kind = "audio-start" →
      Served voice e c { c with format := formatOf e.data Format.stt, audio := [] } []
  | chunk {p : Bytes} : e.kind = "audio-chunk" → e.payload = some p →
      Served voice e c
        { c with audio := merge c.audio (formatOf e.data c.format, p) } []
  | stop {text : String} : e.kind = "audio-stop" →
      heard voice c.stops (pcmOf c.audio) = .ok text →
      Served voice e c { c with audio := [], stops := c.stops + 1 } [transcript text]
  | speak {answer : List Event} : e.kind = "synthesize" →
      synthesized voice c.speeches e.data = .ok answer →
      Served voice e c { c with speeches := c.speeches + 1 } answer
  | ignored : e.kind ≠ "describe" → e.kind ≠ "audio-start" →
      (e.kind = "audio-chunk" → e.payload = none) → e.kind ≠ "audio-stop" →
      e.kind ≠ "synthesize" → Served voice e c c []

theorem served_of_ok {voice : Voice} {e : Event} {c c' : Connection}
    {answer : List Event} (h : serveEvent voice e c = .ok (c', answer)) :
    Served voice e c c' answer := by
  rw [serveEvent] at h
  split at h
  · rename_i hkind
    obtain ⟨rfl, rfl⟩ := Prod.mk.inj (Except.ok.inj h)
    exact .describe hkind
  · rename_i hdescribe
    split at h
    · rename_i hkind
      obtain ⟨rfl, rfl⟩ := Prod.mk.inj (Except.ok.inj h)
      exact .start hkind
    · rename_i hstart
      split at h
      · rename_i hkind
        split at h
        · rename_i p hpayload
          obtain ⟨rfl, rfl⟩ := Prod.mk.inj (Except.ok.inj h)
          exact .chunk hkind hpayload
        · rename_i hpayload
          obtain ⟨rfl, rfl⟩ := Prod.mk.inj (Except.ok.inj h)
          exact .ignored hdescribe hstart (fun _ => hpayload)
            (by rw [hkind]; decide) (by rw [hkind]; decide)
      · rename_i hchunk
        split at h
        · rename_i hkind
          obtain ⟨text, htext, h⟩ := bind_eq_ok.mp h
          obtain ⟨rfl, rfl⟩ := Prod.mk.inj (Except.ok.inj h)
          exact .stop hkind htext
        · rename_i hstop
          split at h
          · rename_i hkind
            obtain ⟨answer', hanswer, h⟩ := bind_eq_ok.mp h
            obtain ⟨rfl, rfl⟩ := Prod.mk.inj (Except.ok.inj h)
            exact .speak hkind hanswer
          · rename_i hspeak
            obtain ⟨rfl, rfl⟩ := Prod.mk.inj (Except.ok.inj h)
            exact .ignored hdescribe hstart (fun hkind => absurd hkind hchunk)
              hstop hspeak

/-- Only the engines can fail. -/
theorem failed_of_error {voice : Voice} {e : Event} {c : Connection} {err : String}
    (h : serveEvent voice e c = .error err) :
    e.kind = "audio-stop" ∧ heard voice c.stops (pcmOf c.audio) = .error err ∨
      e.kind = "synthesize" ∧ synthesized voice c.speeches e.data = .error err := by
  rw [serveEvent] at h
  split at h
  · cases h
  · split at h
    · cases h
    · split at h
      · split at h <;> cases h
      · split at h
        · rename_i hkind
          exact Or.inl ⟨hkind, bind_ok_eq_error.mp h⟩
        · split at h
          · rename_i hkind
            exact Or.inr ⟨hkind, bind_ok_eq_error.mp h⟩
          · cases h

theorem serveEvent_stop {voice : Voice} {e : Event} (h : e.kind = "audio-stop")
    (c : Connection) :
    serveEvent voice e c = (do
      let text ← heard voice c.stops (pcmOf c.audio)
      return ({ c with audio := [], stops := c.stops + 1 }, [transcript text])) := by
  rw [serveEvent, h]
  rfl

/-- Two samples at 24 kHz. -/
def shortWav : Bytes :=
  riff ++ [40, 0, 0, 0] ++ wave ++
    fmtId ++ [16, 0, 0, 0, 1, 0, 1, 0, 192, 93, 0, 0, 128, 187, 0, 0, 2, 0, 16, 0] ++
    dataId ++ [4, 0, 0, 0, 1, 0, 2, 0]

/-- Hears the number of samples, and says two samples for any text that has no
markup. -/
def fakeVoice : Voice where
  transcribe _ pcm := .ok (toString pcm.length ++ " samples")
  synthesize _ _ _ := .ok shortWav
  regex := ⟨fun _ text _ => text, fun _ text _ => text⟩
  info := .object []

theorem parseWav_shortWav :
    parseWav shortWav = .ok (⟨24000, 2, 1⟩, [1, 0, 2, 0]) := by decide

end AssistantHub.WyomingVoice
