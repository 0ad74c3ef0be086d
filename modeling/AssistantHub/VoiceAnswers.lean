import AssistantHub.WyomingVoice

namespace AssistantHub.VoiceAnswers

open AssistantHub.Chunks
open AssistantHub.Fallible
open AssistantHub.JsonValue
open AssistantHub.LittleEndian
open AssistantHub.PcmAudio
open AssistantHub.SortedMaps
open AssistantHub.WyomingFrames
open AssistantHub.WyomingVoice

/-- The event says which format the audio has. -/
structure Names (fmt : Format) (e : Event) : Prop where
  rate_eq : e.data.lookup "rate" = some (number fmt.rate.toNat)
  width_eq : e.data.lookup "width" = some (number fmt.width.toNat)
  channels_eq : e.data.lookup "channels" = some (number fmt.channels.toNat)

/-- An audio-start, the audio in chunks of 4096 frames, and an audio-stop. -/
structure IsSpeech (fmt : Format) (pcm : Bytes) (answer : List Event) : Prop where
  parts : ∃ start chunks stop,
    answer = start :: chunks ++ [stop] ∧
    (start.kind = "audio-start" ∧ start.payload = none ∧ Names fmt start) ∧
    (stop.kind = "audio-stop" ∧ stop.payload = none) ∧
    (∀ chunk ∈ chunks, chunk.kind = "audio-chunk" ∧ Names fmt chunk ∧
      ∃ p, chunk.payload = some p ∧ p ≠ []) ∧
    chunks.flatMap (fun chunk => chunk.payload.getD []) = pcm ∧
    (1 ≤ fmt.width → 1 ≤ fmt.channels → ∀ chunk ∈ chunks.dropLast,
      (chunk.payload.getD []).length =
        4096 * (fmt.width.toNat * fmt.channels.toNat))

/-- The answer that the protocol wants to an event. -/
structure Answers (voice : Voice) (e : Event) (answer : List Event) : Prop where
  describe : e.kind = "describe" → answer = [Event.new "info" voice.info]
  stop : e.kind = "audio-stop" → ∃ text, answer = [transcript text]
  silent : e.kind = "synthesize" → textOf voice e.data = "" → answer = [audioStop]
  speech : e.kind = "synthesize" → textOf voice e.data ≠ "" →
    ∃ call wav fmt pcm,
      voice.synthesize call (textOf voice e.data) (voiceName e.data) = .ok wav ∧
      parseWav wav = .ok (fmt, pcm) ∧ IsSpeech fmt pcm answer
  other : e.kind ≠ "describe" → e.kind ≠ "audio-stop" → e.kind ≠ "synthesize" →
    answer = []

/-- The call of an engine fails, or what comes back is no WAV file. -/
def EngineFails (voice : Voice) (e : Event) (c : Connection) : Prop :=
  e.kind = "audio-stop" ∧ pcmOf c.audio ≠ [] ∧
      (∃ err, voice.transcribe c.stops (pcmOf c.audio) = .error err) ∨
    e.kind = "synthesize" ∧ textOf voice e.data ≠ "" ∧
      ((∃ err, voice.synthesize c.speeches (textOf voice e.data)
          (voiceName e.data) = .error err) ∨
        ∃ wav err, voice.synthesize c.speeches (textOf voice e.data)
          (voiceName e.data) = .ok wav ∧ parseWav wav = .error err)

section Speech

variable (fmt : Format)

theorem names_audioData {e : Event} (h : e.data = fieldsOf (audioData fmt)) :
    Names fmt e := by
  constructor <;>
    simp [h, fieldsOf, audioData, SortedMap.ofList, SortedMap.extend]

theorem chunkBytes_eq (fmt : Format) :
    chunkBytes fmt = 4096 * (fmt.width.toNat * fmt.channels.toNat) :=
  Nat.mul_assoc _ _ _

theorem isSpeech_speech (pcm : Bytes) : IsSpeech fmt pcm (speech fmt pcm) := by
  refine ⟨_, _, audioStop, rfl, ⟨rfl, rfl, names_audioData fmt rfl⟩, ⟨rfl, rfl⟩,
    ?_, ?_, ?_⟩
  · intro e he
    obtain ⟨chunk, hchunk, rfl⟩ := List.mem_map.mp he
    exact ⟨rfl, names_audioData fmt rfl, chunk, rfl,
      ne_nil_of_mem_chunks (by omega) hchunk⟩
  · rw [List.flatMap_map]
    simp only [Event.withPayload, Option.getD_some, List.flatMap_id']
    exact flatten_chunks _ pcm
  · intro hwidth hchannels e he
    rw [← List.map_dropLast] at he
    obtain ⟨chunk, hchunk, rfl⟩ := List.mem_map.mp he
    have hlength := length_of_mem_dropLast_chunks (by omega) hchunk
    have hpos : 1 ≤ fmt.width.toNat * fmt.channels.toNat :=
      Nat.mul_pos (UInt16.le_iff_toNat_le.mp hwidth)
        (UInt16.le_iff_toNat_le.mp hchannels)
    change chunk.length = _
    rw [hlength, chunkBytes_eq]
    omega

end Speech

section Serving

variable {voice : Voice} {e : Event} {c c' : Connection} {answer : List Event}

theorem answers_served (h : Served voice e c c' answer) : Answers voice e answer := by
  cases h with
  | describe hkind => constructor <;> simp_all
  | start hkind => constructor <;> simp_all
  | chunk hkind => constructor <;> simp_all
  | stop hkind => constructor <;> simp_all
  | ignored hdescribe hstart hchunk hstop hspeak => constructor <;> simp_all
  | speak hkind hanswer =>
      rw [synthesized] at hanswer
      split at hanswer
      · rename_i htext
        obtain rfl := Except.ok.inj hanswer
        constructor <;> simp_all
      · rename_i htext
        obtain ⟨wav, hwav, hanswer⟩ := bind_eq_ok.mp hanswer
        obtain ⟨⟨fmt, pcm⟩, hpcm, hanswer⟩ := bind_eq_ok.mp hanswer
        obtain rfl := Except.ok.inj hanswer
        refine ⟨?_, ?_, ?_, ?_, ?_⟩
        · simp [hkind]
        · simp [hkind]
        · exact fun _ hnone => absurd hnone htext
        · exact fun _ _ => ⟨_, wav, fmt, pcm, hwav, hpcm, isSpeech_speech fmt pcm⟩
        · exact fun _ _ hspeak => absurd hkind hspeak

theorem engineFails_of_error {err : String} (h : serveEvent voice e c = .error err) :
    EngineFails voice e c := by
  rcases failed_of_error h with ⟨hkind, herr⟩ | ⟨hkind, herr⟩
  · rw [heard] at herr
    split at herr
    · cases herr
    · rename_i hpcm
      exact Or.inl ⟨hkind, hpcm, err, herr⟩
  · rw [synthesized] at herr
    split at herr
    · cases herr
    · rename_i htext
      refine Or.inr ⟨hkind, htext, ?_⟩
      cases hwav : voice.synthesize c.speeches (textOf voice e.data)
          (voiceName e.data) with
      | error err' => exact Or.inl ⟨err', rfl⟩
      | ok wav =>
          rw [hwav] at herr
          exact Or.inr ⟨wav, err, rfl, bind_ok_eq_error.mp herr⟩

theorem answers_serve (voice : Voice) (events : List Event) (c : Connection) :
    ∃ answers : List (List Event),
      (serve voice events c).2.1 = answers.flatten ∧
      List.Forall₂ (Answers voice) (events.take answers.length) answers ∧
      (answers.length < events.length → ∃ past e c' out, past ++ [e] <+: events ∧
        serve voice past c = (c', out, none) ∧ EngineFails voice e c') := by
  induction events generalizing c with
  | nil => exact ⟨[], rfl, List.Forall₂.nil, by simp⟩
  | cons e events ih =>
      cases hevent : serveEvent voice e c with
      | error err =>
          refine ⟨[], by rw [serve, hevent]; rfl, List.Forall₂.nil, fun _ => ?_⟩
          exact ⟨[], e, c, [], by simp, rfl, engineFails_of_error hevent⟩
      | ok served =>
          obtain ⟨c₁, answer⟩ := served
          obtain ⟨answers, hout, hanswers, hfails⟩ := ih c₁
          refine ⟨answer :: answers, ?_, ?_, ?_⟩
          · rw [serve, hevent, List.flatten_cons, ← hout]
          · rw [List.length_cons, List.take_succ_cons]
            exact List.Forall₂.cons (answers_served (served_of_ok hevent)) hanswers
          · intro hlt
            obtain ⟨past, e', c', out, hpast, hserve, hfail⟩ :=
              hfails (Nat.lt_of_succ_lt_succ hlt)
            refine ⟨e :: past, e', c', answer ++ out,
              List.cons_prefix_cons.mpr ⟨rfl, hpast⟩, ?_, hfail⟩
            rw [serve, hevent]
            simp only [hserve]

end Serving

/-- Every event has its answer, in order, up to the first call of an engine that
fails. -/
theorem answers_in_order (voice : Voice) (events : List Event) :
    ∃ answers : List (List Event),
      (serve voice events .start).2.1 = answers.flatten ∧
      List.Forall₂ (Answers voice) (events.take answers.length) answers ∧
      (answers.length < events.length → ∃ past e c out, past ++ [e] <+: events ∧
        serve voice past .start = (c, out, none) ∧ EngineFails voice e c) :=
  answers_serve voice events .start

def sayHi : Event := Event.new "synthesize" (.object [("text", .string "Hi.")])

/-- The last event of a speech names no format. -/
theorem not_names_audioStop :
    (serve fakeVoice [sayHi] .start).2.1.map Event.kind =
        ["audio-start", "audio-chunk", "audio-stop"] ∧
      (serve fakeVoice [sayHi] .start).2.1.getLast? = some audioStop ∧
      audioStop.data.lookup "rate" = none :=
  ⟨by decide, rfl, rfl⟩

end AssistantHub.VoiceAnswers
