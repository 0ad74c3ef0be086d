import AssistantHub.VoiceAnswers
import AssistantHub.WavFiles

namespace AssistantHub.VoiceProbes

open AssistantHub.BuildArithmetic
open AssistantHub.Chunks
open AssistantHub.Fallible
open AssistantHub.JsonValue
open AssistantHub.KeyRuns
open AssistantHub.LittleEndian
open AssistantHub.PcmAudio
open AssistantHub.SortedMaps
open AssistantHub.SpokenText
open AssistantHub.VoiceAnswers
open AssistantHub.WavFiles
open AssistantHub.WyomingFrames
open AssistantHub.WyomingVoice

/-- What the server writes to a connection for the bytes that come in. Each
event takes at least one of them, so their number is fuel enough. -/
def connection (json : SerdeJson) (voice : Voice) : Nat → Bytes → Connection → Bytes
  | 0, _, _ => []
  | fuel + 1, input, c =>
      match readEvent json input with
      | .ok (some (e, rest)) =>
          match serveEvent voice e c with
          | .ok (c', answer) =>
              writeEvents json answer ++ connection json voice fuel rest c'
          | .error _ => []
      | _ => []

def connected (json : SerdeJson) (voice : Voice) (input : Bytes) : Bytes :=
  connection json voice (input.length + 1) input .start

/-- The next event of the server. -/
def next (json : SerdeJson) (input : Bytes) : Except String (Event × Bytes) := do
  let read ← readEvent json input
  context "server closed the connection" read

def formatData (fmt : Format) : Value :=
  .object [("rate", number fmt.rate.toNat), ("width", number fmt.width.toNat),
    ("channels", number fmt.channels.toNat)]

def audioChunk (fmt : Format) (chunk : Bytes) : Event :=
  (Event.new "audio-chunk" (formatData fmt)).withPayload chunk

/-- What is sent for the audio of a WAV file. -/
def sttEvents (fmt : Format) (pcm : Bytes) : List Event :=
  Event.new "transcribe" (.object []) ::
    Event.new "audio-start" (formatData fmt) ::
      ((chunks 32000 pcm).map (audioChunk fmt) ++
        [Event.new "audio-stop" (.object [])])

/-- The text of the first transcript. -/
def awaitTranscript (json : SerdeJson) : Nat → Bytes → Except String String
  | 0, _ => .error "server closed the connection"
  | fuel + 1, input => do
      let (e, rest) ← next json input
      if e.kind = "transcript" then
        return ((e.data.lookup "text").bind Value.asStr).getD ""
      else awaitTranscript json fuel rest

/-- `probe stt`, against a server: the text it prints. -/
def stt (json : SerdeJson) (server : Bytes → Bytes) (wav : Bytes) :
    Except String String := do
  let (fmt, pcm) ← parseWav wav
  let answer := server (writeEvents json (sttEvents fmt pcm))
  awaitTranscript json (answer.length + 1) answer

/-- The audio of the chunks so far, with the rate and the channels of the last
one. -/
structure Collected where
  pcm : List Int16
  rate : UInt32
  channels : UInt16

def Collected.start : Collected := { pcm := [], rate := 0, channels := 1 }

/-- `i16::from_le_bytes` -/
def fromLeBytes (bytes : Bytes) : Int16 := Int16.ofUInt16 (UInt16.ofNat (leNat bytes))

def Collected.add (e : Event) (s : Collected) : Except String Collected :=
  let get := fun key => (e.data.lookup key).bind Value.asU64
  if get "width" = some 2 then
    .ok
      { pcm := s.pcm ++ (chunksExact 2 (e.payload.getD [])).map fromLeBytes
        rate := ((get "rate").getD 0).toUInt32
        channels := ((get "channels").getD 1).toUInt16 }
  else .error "only 16-bit audio is supported here"

def collect (json : SerdeJson) : Nat → Bytes → Collected → Except String Collected
  | 0, _, _ => .error "server closed the connection"
  | fuel + 1, input, s => do
      let (e, rest) ← next json input
      if e.kind = "audio-chunk" then
        let s' ← s.add e
        collect json fuel rest s'
      else if e.kind = "audio-stop" then return s
      else collect json fuel rest s

def synthesizeEvent (text : String) : Event :=
  Event.new "synthesize" (.object [("text", .string text)])

/-- `probe tts`, against a server: the file it saves. -/
def tts (json : SerdeJson) (build : Build) (server : Bytes → Bytes) (text : String) :
    Except Failure Bytes := do
  let answer := server (writeEvents json [synthesizeEvent text])
  let s ← (collect json (answer.length + 1) answer .start).mapError .error
  wavBytes build s.pcm s.rate s.channels

/-- The events that a connection can carry: they fit, and serde_json reads back
what it has written of them. -/
def Carried (json : SerdeJson) (events : List Event) : Prop :=
  ∀ e ∈ events, Fits json e ∧ json.RoundTrips (header json e) ∧
    json.RoundTrips (.object e.data.entries)

section Wire

variable {json : SerdeJson} {voice : Voice}

theorem connection_succ (fuel : Nat) (input : Bytes) (c : Connection) :
    connection json voice (fuel + 1) input c =
      match readEvent json input with
      | .ok (some (e, rest)) =>
          match serveEvent voice e c with
          | .ok (c', answer) =>
              writeEvents json answer ++ connection json voice fuel rest c'
          | .error _ => []
      | _ => [] := rfl

theorem Carried.tail {e : Event} {events : List Event}
    (h : Carried json (e :: events)) : Carried json events :=
  fun e' he' => h e' (List.mem_cons_of_mem e he')

theorem carried_nil (json : SerdeJson) : Carried json [] := nofun

theorem Carried.cons {e : Event} {events : List Event} (h : Carried json events)
    (hfits : Fits json e) (hheader : json.RoundTrips (header json e))
    (hdata : json.RoundTrips (.object e.data.entries)) : Carried json (e :: events) := by
  intro e' he'
  rcases List.mem_cons.mp he' with rfl | he'
  · exact ⟨hfits, hheader, hdata⟩
  · exact h e' he'

theorem Carried.left {before after : List Event}
    (h : Carried json (before ++ after)) : Carried json before :=
  fun e he => h e (List.mem_append_left after he)

theorem Carried.right {before after : List Event}
    (h : Carried json (before ++ after)) : Carried json after :=
  fun e he => h e (List.mem_append_right before he)

theorem readEvent_writeEvents {e : Event} {events : List Event}
    (h : Carried json (e :: events)) :
    readEvent json (writeEvents json (e :: events)) =
      .ok (some (e, writeEvents json events)) := by
  obtain ⟨hfits, hheader, hdata⟩ := h e List.mem_cons_self
  exact readEvent_writeEvent hheader hdata hfits _

theorem next_writeEvents {e : Event} {events : List Event}
    (h : Carried json (e :: events)) :
    next json (writeEvents json (e :: events)) = .ok (e, writeEvents json events) := by
  rw [next, readEvent_writeEvents h]
  rfl

theorem length_le_writeEvents (json : SerdeJson) (events : List Event) :
    events.length ≤ (writeEvents json events).length := by
  induction events with
  | nil => exact Nat.le_refl 0
  | cons e events ih =>
      have hpos : 1 ≤ (writeEvent json e).length := by
        simp only [writeEvent, headerLine, List.length_append, List.length_singleton]
        omega
      rw [writeEvents, List.flatMap_cons, List.length_append, ← writeEvents,
        List.length_cons]
      omega

/-- A connection answers the bytes of events with the bytes of the answers. -/
theorem connection_writeEvents {events : List Event} (h : Carried json events)
    {fuel : Nat} (hfuel : events.length < fuel) (c : Connection) :
    connection json voice fuel (writeEvents json events) c =
      writeEvents json (serve voice events c).2.1 := by
  obtain ⟨fuel, rfl⟩ := Nat.exists_eq_succ_of_ne_zero (Nat.ne_zero_of_lt hfuel)
  induction events generalizing fuel c with
  | nil => rfl
  | cons e events ih =>
      rw [connection_succ, readEvent_writeEvents h, serve]
      simp only
      cases serveEvent voice e c with
      | error err => rfl
      | ok served =>
          obtain ⟨c', answer⟩ := served
          have hlt : events.length < fuel := Nat.lt_of_succ_lt_succ hfuel
          obtain ⟨fuel, rfl⟩ := Nat.exists_eq_succ_of_ne_zero (Nat.ne_zero_of_lt hlt)
          simp only
          rw [ih h.tail c' fuel hlt, writeEvents, writeEvents, writeEvents,
            List.flatMap_append]

theorem connected_writeEvents (voice : Voice) {events : List Event}
    (h : Carried json events) :
    connected json voice (writeEvents json events) =
      writeEvents json (serve voice events .start).2.1 :=
  connection_writeEvents h (Nat.lt_succ_of_le (length_le_writeEvents json events)) .start

theorem awaitTranscript_succ (fuel : Nat) (input : Bytes) :
    awaitTranscript json (fuel + 1) input = (do
      let (e, rest) ← next json input
      if e.kind = "transcript" then
        return ((e.data.lookup "text").bind Value.asStr).getD ""
      else awaitTranscript json fuel rest) := rfl

end Wire

section Listening

variable {json : SerdeJson} {voice : Voice} (fmt : Format)

/-- The audio of a connection that has received nothing but `raw`. -/
def audioOf (raw : Bytes) : List (Format × Bytes) :=
  if raw = [] then [] else [(fmt, raw)]

theorem merge_audioOf {p : Bytes} (hp : p ≠ []) (raw : Bytes) :
    merge (audioOf fmt raw) (fmt, p) = audioOf fmt (raw ++ p) := by
  have hall : audioOf fmt (raw ++ p) = [(fmt, raw ++ p)] := if_neg (by simp [hp])
  rw [hall, audioOf]
  split
  · rename_i hraw
    rw [hraw]
    rfl
  · exact (merge_concat [] (fmt, raw) (fmt, p)).trans (if_pos rfl)

theorem pcmOf_audioOf (raw : Bytes) :
    pcmOf (audioOf fmt raw) = toMonoI16 raw fmt sttRate := by
  rw [audioOf]
  split
  · rename_i hraw
    have hmono : mono [] fmt = [] := rfl
    rw [hraw, toMonoI16, hmono]
    simp [pcmOf]
  · simp [pcmOf]

theorem formatOf_of_names {e : Event} (h : Names fmt e) (fallback : Format) :
    formatOf e.data fallback = fmt := by
  have hrate : (UInt64.ofNat fmt.rate.toNat).toUInt32 = fmt.rate := by
    apply UInt32.toNat_inj.mp
    have := fmt.rate.toNat_lt
    simp
  have hword : ∀ n : UInt16, (UInt64.ofNat n.toNat).toUInt16 = n := by
    intro n
    apply UInt16.toNat_inj.mp
    simp
  simp only [formatOf, h.rate_eq, h.width_eq, h.channels_eq, Option.bind_some]
  change Format.mk (UInt64.ofNat fmt.rate.toNat).toUInt32
    (UInt64.ofNat fmt.width.toNat).toUInt16
    (UInt64.ofNat fmt.channels.toNat).toUInt16 = fmt
  rw [hrate, hword, hword]

theorem names_formatData {e : Event} (h : e.data = fieldsOf (formatData fmt)) :
    Names fmt e := by
  constructor <;>
    simp [h, fieldsOf, formatData, SortedMap.ofList, SortedMap.extend]

theorem serveEvent_audioStart (c : Connection) :
    serveEvent voice (Event.new "audio-start" (formatData fmt)) c =
      .ok ({ c with format := fmt, audio := [] }, []) := by
  have hfmt := formatOf_of_names fmt (names_formatData fmt rfl) Format.stt
    (e := Event.new "audio-start" (formatData fmt))
  have hserved : serveEvent voice (Event.new "audio-start" (formatData fmt)) c =
      .ok ({ c with
        format := formatOf (Event.new "audio-start" (formatData fmt)).data Format.stt
        audio := [] }, []) := rfl
  rw [hserved, hfmt]

theorem serveEvent_audioChunk (p : Bytes) (c : Connection) :
    serveEvent voice (audioChunk fmt p) c =
      .ok ({ c with audio := merge c.audio (fmt, p) }, []) := by
  have hfmt := formatOf_of_names fmt (names_formatData fmt rfl) c.format
    (e := audioChunk fmt p)
  have hserved : serveEvent voice (audioChunk fmt p) c =
      .ok ({ c with
        audio := merge c.audio (formatOf (audioChunk fmt p).data c.format, p) }, []) := rfl
  rw [hserved, hfmt]

theorem serve_audioChunks {pieces : List Bytes} (hne : ∀ p ∈ pieces, p ≠ [])
    (events : List Event) {c : Connection} (raw : Bytes) (hc : c.audio = audioOf fmt raw) :
    serve voice (pieces.map (audioChunk fmt) ++ events) c =
      serve voice events { c with audio := audioOf fmt (raw ++ pieces.flatten) } := by
  induction pieces generalizing c raw with
  | nil =>
      rw [List.flatten_nil, List.append_nil, ← hc]
      rfl
  | cons p pieces ih =>
      have hp : p ≠ [] := hne p List.mem_cons_self
      have hmerge : merge c.audio (fmt, p) = audioOf fmt (raw ++ p) := by
        rw [hc, merge_audioOf fmt hp]
      rw [List.map_cons, List.cons_append, serve, serveEvent_audioChunk]
      simp only [List.nil_append]
      rw [ih (fun q hq => hne q (List.mem_cons_of_mem p hq)) (raw ++ p) hmerge,
        List.append_assoc, ← List.flatten_cons]

/-- The server hears all the audio in one piece, wherever the chunks are cut. -/
theorem serve_sttEvents (pcm : Bytes) :
    (serve voice (sttEvents fmt pcm) .start).2.1 =
      match heard voice 0 (toMonoI16 pcm fmt sttRate) with
      | .ok text => [transcript text]
      | .error _ => [] := by
  have hne : ∀ p ∈ chunks 32000 pcm, p ≠ [] := fun p hp =>
    ne_nil_of_mem_chunks (by decide) hp
  rw [sttEvents, serve]
  show (serve voice (Event.new "audio-start" (formatData fmt) :: _) .start).2.1 = _
  rw [serve, serveEvent_audioStart]
  simp only [List.nil_append]
  rw [serve_audioChunks fmt hne _ [] rfl, flatten_chunks, List.nil_append,
    serve, serveEvent_stop rfl, pcmOf_audioOf]
  simp only [Connection.start]
  cases heard voice 0 (toMonoI16 pcm fmt sttRate) with
  | error err => rfl
  | ok text => rfl

theorem lookup_transcript (text : String) :
    ((transcript text).data.lookup "text").bind Value.asStr = some text := by
  simp [transcript, Event.new, fieldsOf, SortedMap.ofList, SortedMap.extend, Value.asStr]

theorem awaitTranscript_transcript {text : String} {fuel : Nat}
    (h : Carried json [transcript text]) (hfuel : 0 < fuel) :
    awaitTranscript json fuel (writeEvents json [transcript text]) = .ok text := by
  obtain ⟨fuel, rfl⟩ := Nat.exists_eq_succ_of_ne_zero (Nat.ne_zero_of_lt hfuel)
  rw [awaitTranscript_succ, next_writeEvents h]
  change Except.ok ((((transcript text).data.lookup "text").bind Value.asStr).getD "") = _
  rw [lookup_transcript]
  rfl

end Listening

/-- A WAV file is heard over a connection as the engine hears all of its audio,
whatever chunks it is sent in. An engine that fails closes the connection. -/
theorem stt_hears (json : SerdeJson) (voice : Voice) {wav pcm : Bytes} {fmt : Format}
    (hwav : parseWav wav = .ok (fmt, pcm)) (hsent : Carried json (sttEvents fmt pcm))
    (hheard : ∀ text, heard voice 0 (toMonoI16 pcm fmt sttRate) = .ok text →
      Carried json [transcript text]) :
    stt json (connected json voice) wav =
      (heard voice 0 (toMonoI16 pcm fmt sttRate)).mapError fun _ =>
        "server closed the connection" := by
  have hanswer := connected_writeEvents voice hsent
  rw [serve_sttEvents] at hanswer
  rw [stt, hwav]
  change awaitTranscript json ((connected json voice _).length + 1)
    (connected json voice (writeEvents json (sttEvents fmt pcm))) = _
  rw [hanswer]
  cases hresult : heard voice 0 (toMonoI16 pcm fmt sttRate) with
  | error err => rfl
  | ok text => exact awaitTranscript_transcript (hheard text hresult) (Nat.succ_pos _)

/-- Two samples at the rate of the engine. -/
def twoSamples : Bytes :=
  riff ++ [40, 0, 0, 0] ++ wave ++
    fmtId ++ [16, 0, 0, 0, 1, 0, 1, 0, 128, 62, 0, 0, 0, 125, 0, 0, 2, 0, 16, 0] ++
    dataId ++ [4, 0, 0, 0, 1, 0, 2, 0]

def jsonOf (events : List Event) : SerdeJson :=
  serdeFor (events.flatMap fun e => [header (serdeFor []) e, .object e.data.entries])

def heardJson : SerdeJson :=
  jsonOf (sttEvents Format.stt [1, 0, 2, 0] ++ [transcript "2 samples"])

theorem carried_heardJson :
    Carried heardJson (sttEvents Format.stt [1, 0, 2, 0] ++ [transcript "2 samples"]) := by
  have hchunks : chunks 32000 ([1, 0, 2, 0] : Bytes) = [[1, 0, 2, 0]] := by decide
  have hpayload : ∀ payload, (audioChunk Format.stt [1, 0, 2, 0]).payload = some payload →
      payload ≠ [] ∧ payload.length ≤ maxPayload := by
    intro payload h
    obtain rfl := Option.some.inj h
    decide
  rw [sttEvents, hchunks]
  refine Carried.cons ?_ ⟨by decide, by decide, nofun⟩ ⟨by decide, by decide, rfl, rfl⟩
    ⟨by decide, by decide, rfl, rfl⟩
  refine Carried.cons ?_ ⟨by decide, by decide, nofun⟩ ⟨by decide, by decide, rfl, rfl⟩
    ⟨by decide, by decide, rfl, rfl⟩
  refine Carried.cons ?_ ⟨by decide, by decide, hpayload⟩
    ⟨by decide, by decide, rfl, rfl⟩ ⟨by decide, by decide, rfl, rfl⟩
  refine Carried.cons ?_ ⟨by decide, by decide, nofun⟩ ⟨by decide, by decide, rfl, rfl⟩
    ⟨by decide, by decide, rfl, rfl⟩
  exact (carried_nil heardJson).cons ⟨by decide, by decide, nofun⟩
    ⟨by decide, by decide, rfl, rfl⟩ ⟨by decide, by decide, rfl, rfl⟩

theorem heard_twoSamples :
    heard fakeVoice 0 (toMonoI16 [1, 0, 2, 0] Format.stt sttRate) = .ok "2 samples" := by
  decide

theorem stt_hears_twoSamples :
    stt heardJson (connected heardJson fakeVoice) twoSamples = .ok "2 samples" := by
  have hheard : ∀ text, heard fakeVoice 0 (toMonoI16 [1, 0, 2, 0] Format.stt sttRate) =
      .ok text → Carried heardJson [transcript text] := by
    intro text htext
    rw [heard_twoSamples] at htext
    obtain rfl := Except.ok.inj htext
    exact carried_heardJson.right
  have h := @stt_hears heardJson fakeVoice twoSamples [1, 0, 2, 0] Format.stt (by decide)
    carried_heardJson.left hheard
  rw [h, heard_twoSamples]
  rfl

section Speaking

variable {json : SerdeJson} {voice : Voice} {fmt : Format}

/-- One chunk of a speech. -/
def speechChunk (fmt : Format) (chunk : Bytes) : Event :=
  (Event.new "audio-chunk" (audioData fmt)).withPayload chunk

theorem collect_succ (fuel : Nat) (input : Bytes) (s : Collected) :
    collect json (fuel + 1) input s = (do
      let (e, rest) ← next json input
      if e.kind = "audio-chunk" then
        let s' ← s.add e
        collect json fuel rest s'
      else if e.kind = "audio-stop" then return s
      else collect json fuel rest s) := rfl

theorem add_speechChunk (hwidth : fmt.width = 2) (p : Bytes) (s : Collected) :
    s.add (speechChunk fmt p) =
      .ok
        { pcm := s.pcm ++ (chunksExact 2 p).map fromLeBytes
          rate := fmt.rate
          channels := fmt.channels } := by
  have hnames := names_audioData fmt (e := speechChunk fmt p) rfl
  have hrate : (UInt64.ofNat fmt.rate.toNat).toUInt32 = fmt.rate := by simp
  have hchannels : (UInt64.ofNat fmt.channels.toNat).toUInt16 = fmt.channels := by simp
  have hwide : (number fmt.width.toNat).asU64 = some 2 := by
    rw [hwidth]
    rfl
  simp only [Collected.add, hnames.rate_eq, hnames.width_eq, hnames.channels_eq,
    Option.bind_some, hwide, if_true]
  change Except.ok (Collected.mk _ (UInt64.ofNat fmt.rate.toNat).toUInt32
    (UInt64.ofNat fmt.channels.toNat).toUInt16) = _
  rw [hrate, hchannels]
  rfl

theorem collect_chunks (hwidth : fmt.width = 2) {p : Bytes} {pieces : List Bytes}
    {events : List Event}
    (h : Carried json ((p :: pieces).map (speechChunk fmt) ++ events)) (fuel : Nat)
    (s : Collected) :
    collect json (fuel + (p :: pieces).length)
        (writeEvents json ((p :: pieces).map (speechChunk fmt) ++ events)) s =
      collect json fuel (writeEvents json events)
        { pcm := s.pcm ++ ((p :: pieces).flatMap (chunksExact 2)).map fromLeBytes
          rate := fmt.rate
          channels := fmt.channels } := by
  induction pieces generalizing p s with
  | nil =>
      rw [List.length_singleton, collect_succ]
      rw [List.map_singleton, List.singleton_append] at h ⊢
      rw [next_writeEvents h]
      change (s.add (speechChunk fmt p) >>= fun s' =>
        collect json fuel (writeEvents json events) s') = _
      rw [add_speechChunk hwidth]
      simp only [List.flatMap_cons, List.flatMap_nil, List.append_nil]
      rfl
  | cons q pieces ih =>
      rw [List.length_cons, ← Nat.add_assoc, collect_succ]
      rw [List.map_cons, List.cons_append] at h ⊢
      rw [next_writeEvents h]
      change (s.add (speechChunk fmt p) >>= fun s' =>
        collect json (fuel + (q :: pieces).length) (writeEvents json
          ((q :: pieces).map (speechChunk fmt) ++ events)) s') = _
      rw [add_speechChunk hwidth]
      change collect json (fuel + (q :: pieces).length) _ _ = _
      rw [ih h.tail]
      simp only [List.flatMap_cons, List.map_append, List.append_assoc]

/-- A speech is collected with all its whole samples, if a chunk holds some. -/
theorem collect_speech (hwidth : fmt.width = 2) (hchannels : 1 ≤ fmt.channels)
    {pcm : Bytes} (hpcm : pcm ≠ []) (h : Carried json (speech fmt pcm)) {fuel : Nat}
    (hfuel : (speech fmt pcm).length ≤ fuel) :
    collect json fuel (writeEvents json (speech fmt pcm)) .start =
      .ok
        { pcm := (chunksExact 2 pcm).map fromLeBytes
          rate := fmt.rate
          channels := fmt.channels } := by
  have hsize : max 1 (chunkBytes fmt) = 2 * (4096 * fmt.channels.toNat) := by
    have hpos := UInt16.le_iff_toNat_le.mp hchannels
    rw [chunkBytes_eq, hwidth]
    change 1 ≤ fmt.channels.toNat at hpos
    change max 1 (4096 * (2 * fmt.channels.toNat)) = _
    omega
  have hpos : 0 < max 1 (chunkBytes fmt) := by omega
  obtain ⟨p, pieces, hpieces⟩ := List.exists_cons_of_ne_nil
    (show chunks (max 1 (chunkBytes fmt)) pcm ≠ [] by
      rw [chunks_eq_cons hpos hpcm]
      exact List.cons_ne_nil _ _)
  have hwhole : (p :: pieces).flatMap (chunksExact 2) = chunksExact 2 pcm := by
    rw [← hpieces, flatMap_chunksExact (by decide), flatten_chunks]
    intro q hq
    rw [length_of_mem_dropLast_chunks hpos hq, hsize]
    exact Nat.dvd_mul_right 2 _
  have hevents : speech fmt pcm = Event.new "audio-start" (audioData fmt) ::
      ((p :: pieces).map (speechChunk fmt) ++ [audioStop]) := by
    rw [speech, hpieces]
    rfl
  rw [hevents] at h hfuel ⊢
  obtain ⟨fuel, rfl⟩ := Nat.exists_eq_add_of_le' hfuel
  have hcount : fuel + (Event.new "audio-start" (audioData fmt) ::
      ((p :: pieces).map (speechChunk fmt) ++ [audioStop])).length =
        (fuel + 1) + (p :: pieces).length + 1 := by
    simp only [List.length_cons, List.length_append, List.length_map, List.length_nil]
    omega
  rw [hcount, collect_succ, next_writeEvents h]
  change collect json (fuel + 1 + (p :: pieces).length) (writeEvents json
    ((p :: pieces).map (speechChunk fmt) ++ [audioStop])) .start = _
  rw [collect_chunks hwidth h.tail, collect_succ, next_writeEvents h.tail.right, hwhole]
  rfl

theorem sampleBytes_fromLeBytes (pcm : Bytes) :
    sampleBytes ((chunksExact 2 pcm).map fromLeBytes) =
      pcm.take (pcm.length / 2 * 2) := by
  rw [← flatten_chunksExact (by decide), sampleBytes, List.flatMap_map,
    List.flatMap_def]
  refine congrArg List.flatten ((List.map_congr_left ?_).trans (List.map_id _))
  intro b hb
  have hlength := length_of_mem_chunksExact hb
  have hlt := leNat_lt b
  rw [hlength] at hlt
  change leBytes 2 (UInt16.ofNat (leNat b)).toNat = b
  rw [UInt16.toNat_ofNat_of_lt' hlt, ← hlength, leBytes_leNat]

theorem serve_synthesizeEvent {text : String} {wav pcm : Bytes}
    (htext : speakable voice.regex text ≠ "")
    (hwav : voice.synthesize 0 (speakable voice.regex text) none = .ok wav)
    (hpcm : parseWav wav = .ok (fmt, pcm)) :
    (serve voice [synthesizeEvent text] .start).2.1 = speech fmt pcm := by
  have hspoken : textOf voice (synthesizeEvent text).data = speakable voice.regex text := by
    simp [textOf, synthesizeEvent, Event.new, fieldsOf, SortedMap.ofList,
      SortedMap.extend, Value.asStr]
  have hname : voiceName (synthesizeEvent text).data = none := by
    simp [voiceName, synthesizeEvent, Event.new, fieldsOf, SortedMap.ofList,
      SortedMap.extend]
  have hanswer : synthesized voice 0 (synthesizeEvent text).data = .ok (speech fmt pcm) := by
    rw [synthesized]
    simp only [hspoken, hname, if_neg htext, hwav]
    change (parseWav wav >>= fun read => _) = _
    rw [hpcm]
    rfl
  have hserved : serveEvent voice (synthesizeEvent text) .start =
      (synthesized voice 0 (synthesizeEvent text).data >>= fun answer =>
        .ok ({ Connection.start with speeches := 1 }, answer)) := rfl
  rw [serve, hserved, hanswer]
  exact List.append_nil _

end Speaking

/-- A speech of 16-bit samples is saved as a file with the samples of the engine,
in its rate and channels; half a sample at the end is lost. -/
theorem tts_saves (json : SerdeJson) (voice : Voice) (build : Build) {text : String}
    {wav pcm : Bytes} {fmt : Format} (htext : speakable voice.regex text ≠ "")
    (hwav : voice.synthesize 0 (speakable voice.regex text) none = .ok wav)
    (hpcm : parseWav wav = .ok (fmt, pcm)) (hne : pcm ≠ []) (hwidth : fmt.width = 2)
    (hchannels : 1 ≤ fmt.channels) (hsize : 36 + pcm.length < 2 ^ 32)
    (hrate : fmt.rate.toNat * fmt.channels.toNat * 2 < 2 ^ 32)
    (hblock : fmt.channels.toNat * 2 < 2 ^ 16)
    (hsent : Carried json [synthesizeEvent text])
    (hspeech : Carried json (speech fmt pcm)) :
    ∃ saved, tts json build (connected json voice) text = .ok saved ∧
      parseWav saved = .ok (fmt, pcm.take (pcm.length / 2 * 2)) := by
  have hanswer := connected_writeEvents voice hsent
  rw [serve_synthesizeEvent htext hwav hpcm] at hanswer
  have hcollected := collect_speech hwidth hchannels hne hspeech
    (Nat.le_succ_of_le (length_le_writeEvents json (speech fmt pcm)))
  have hlength : ((chunksExact 2 pcm).map fromLeBytes).length = pcm.length / 2 := by
    rw [List.length_map, length_chunksExact (by decide)]
  have hsmall : 36 + ((chunksExact 2 pcm).map fromLeBytes).length * 2 < 2 ^ 32 := by
    rw [hlength]
    omega
  have hsaved : tts json build (connected json voice) text =
      wavBytes build ((chunksExact 2 pcm).map fromLeBytes) fmt.rate fmt.channels := by
    rw [tts]
    simp only [hanswer]
    rw [hcollected]
    rfl
  refine ⟨_, hsaved.trans (wavBytes_eq_encode hsmall hrate hblock build), ?_⟩
  rw [parseWav_encode, pcm_writtenFile, sampleBytes_fromLeBytes]
  change Except.ok (fmtChunk (formatBody fmt.rate fmt.channels), _) = _
  rw [fmtChunk_formatBody, ← hwidth]

/-- Says the two samples for every text. -/
def sayingVoice : Voice := { fakeVoice with synthesize := fun _ _ _ => .ok twoSamples }

def spokenJson : SerdeJson :=
  jsonOf (synthesizeEvent "Hi." :: speech Format.stt [1, 0, 2, 0])

theorem carried_spokenJson :
    Carried spokenJson (synthesizeEvent "Hi." :: speech Format.stt [1, 0, 2, 0]) := by
  have hspeech : speech Format.stt [1, 0, 2, 0] =
      [Event.new "audio-start" (audioData Format.stt),
        speechChunk Format.stt [1, 0, 2, 0], audioStop] := rfl
  have hpayload : ∀ payload, (speechChunk Format.stt [1, 0, 2, 0]).payload =
      some payload → payload ≠ [] ∧ payload.length ≤ maxPayload := by
    intro payload h
    obtain rfl := Option.some.inj h
    decide
  rw [hspeech]
  refine Carried.cons ?_ ⟨by decide, by decide, nofun⟩ ⟨by decide, by decide, rfl, rfl⟩
    ⟨by decide, by decide, rfl, rfl⟩
  refine Carried.cons ?_ ⟨by decide +kernel, by decide +kernel, nofun⟩
    ⟨by decide, by decide +kernel, by with_unfolding_all rfl, by with_unfolding_all rfl⟩
    ⟨by decide, by decide +kernel, by with_unfolding_all rfl, by with_unfolding_all rfl⟩
  refine Carried.cons ?_ ⟨by decide +kernel, by decide +kernel, hpayload⟩
    ⟨by decide, by decide +kernel, by with_unfolding_all rfl, by with_unfolding_all rfl⟩
    ⟨by decide, by decide +kernel, by with_unfolding_all rfl, by with_unfolding_all rfl⟩
  exact (carried_nil spokenJson).cons ⟨by decide +kernel, by decide +kernel, nofun⟩
    ⟨by decide, by decide +kernel, by with_unfolding_all rfl, by with_unfolding_all rfl⟩
    ⟨by decide, by decide +kernel, by with_unfolding_all rfl, by with_unfolding_all rfl⟩

theorem tts_saves_twoSamples :
    ∃ saved, tts spokenJson .debug (connected spokenJson sayingVoice) "Hi." = .ok saved ∧
      parseWav saved = .ok (Format.stt, [1, 0, 2, 0]) := by
  have hsent : Carried spokenJson ([synthesizeEvent "Hi."] ++
      speech Format.stt [1, 0, 2, 0]) := carried_spokenJson
  exact tts_saves spokenJson sayingVoice .debug (by decide) rfl (by decide) (by decide) rfl
    (by decide) (by decide) (by decide) (by decide) hsent.left hsent.right

end AssistantHub.VoiceProbes
