import AssistantHub.Chunks
import AssistantHub.LittleEndian
import Mathlib.Algebra.Ring.Int.Defs

namespace AssistantHub.PcmAudio

open AssistantHub.Chunks
open AssistantHub.LittleEndian

structure Format where
  rate : UInt32
  width : UInt16
  channels : UInt16
  deriving DecidableEq, Repr

def Format.stt : Format := { rate := 16000, width := 2, channels := 1 }

/-- A sample of up to 32 bits, as 16 bits. -/
def decodeSample (bytes : Bytes) : Int :=
  match bytes.length with
  | 1 => (leNat bytes - 128) * 2 ^ 8
  | 2 => leInt bytes
  | 3 => leInt (bytes.drop 1)
  | 4 => leInt (bytes.drop 2)
  | _ => 0

def clamp (v : Int) : Int16 := Int16.ofInt (max (-2 ^ 15) (min (2 ^ 15 - 1) v))

def mono (data : Bytes) (format : Format) : List Int :=
  let width := max 1 format.width.toNat
  let channels := max 1 format.channels.toNat
  (chunksExact (width * channels) data).map fun frame =>
    ((chunksExact width frame).map decodeSample).sum.tdiv channels

/-- The sample at `i` of the new rate, between two samples of the old one. -/
def interpolate (samples : List Int) (step : Float) (i : Nat) : Int16 :=
  let pos := Float.ofNat i * step
  let idx := pos.toUInt64.toNat
  let frac := pos - Float.ofNat idx
  let a := Float.ofInt (samples.getD (min idx (samples.length - 1)) 0)
  let b := Float.ofInt (samples.getD (min (idx + 1) (samples.length - 1)) 0)
  clamp (a + (b - a) * frac).round.toInt32.toInt

/-- Converts raw PCM to 16-bit mono at `rate`: channels are averaged, the rate
changes by linear interpolation. -/
def toMonoI16 (data : Bytes) (format : Format) (rate : UInt32) : List Int16 :=
  let samples := mono data format
  if format.rate = rate ∨ format.rate = 0 ∨ samples = [] then samples.map clamp
  else
    let outLen := samples.length * rate.toNat % 2 ^ 64 / format.rate.toNat
    (List.range outLen).map
      (interpolate samples (format.rate.toFloat / rate.toFloat))

def riff : Bytes := [82, 73, 70, 70]

def wave : Bytes := [87, 65, 86, 69]

def fmtId : Bytes := [102, 109, 116, 32]

def dataId : Bytes := [100, 97, 116, 97]

def fmtChunk (body : Bytes) : Format :=
  { channels := UInt16.ofNat (leNat (slice 2 2 body))
    rate := UInt32.ofNat (leNat (slice 4 4 body))
    width := UInt16.ofNat (leNat (slice 14 2 body)) / 8 }

/-- The chunks of a WAV file from `rest` on. Each one takes at least eight
bytes, so `fuel` is never short when it begins as the length of the file. -/
def scanChunks : Nat → Option Format → Bytes → Except String (Format × Bytes)
  | 0, _, _ => .error "WAV without data chunk"
  | fuel + 1, format, rest =>
      if rest.length < 8 then .error "WAV without data chunk"
      else
        let id := rest.take 4
        let size := leNat (slice 4 4 rest)
        let body := rest.drop 8
        if id = fmtId then
          if body.length < 16 then .error "WAV fmt chunk truncated"
          else scanChunks fuel (some (fmtChunk body)) (body.drop (size + size % 2))
        else if id = dataId then
          match format with
          | none => .error "WAV data before fmt"
          | some fmt =>
              .ok (fmt,
                if size = 0 ∨ size = 2 ^ 32 - 1 then body else body.take size)
        else scanChunks fuel format (body.drop (size + size % 2))

/-- Format and PCM data of a WAV file. A data size of 0 or 0xFFFFFFFF (a
streamed file) means "up to the end". -/
def parseWav (data : Bytes) : Except String (Format × Bytes) :=
  if data.length < 12 ∨ data.take 4 ≠ riff ∨ (data.drop 8).take 4 ≠ wave then
    .error "TTS response is not a RIFF/WAV file"
  else scanChunks data.length none (data.drop 12)

/-- More fuel than bytes changes nothing. -/
theorem scanChunks_succ {fuel : Nat} {rest : Bytes} (h : rest.length ≤ fuel)
    (format : Option Format) :
    scanChunks (fuel + 1) format rest = scanChunks fuel format rest := by
  induction fuel generalizing format rest with
  | zero =>
      rw [scanChunks, scanChunks, if_pos (by omega)]
  | succ fuel ih =>
      have hdrop : ∀ n, ((rest.drop 8).drop n).length ≤ fuel := by
        intro n
        rw [List.length_drop, List.length_drop]
        omega
      rw [scanChunks, scanChunks]
      simp only [ih (hdrop _)]

end AssistantHub.PcmAudio
