import AssistantHub.CheckedAccess
import AssistantHub.Fallible
import AssistantHub.PcmAudio

namespace AssistantHub.WavFiles

open AssistantHub.BuildArithmetic
open AssistantHub.CheckedAccess
open AssistantHub.LittleEndian
open AssistantHub.PcmAudio

/-- The bytes of a slice; none is longer than `isize::MAX`. -/
structure Slice where
  bytes : Bytes
  length_lt : bytes.length < 2 ^ 63

/-- `u16::from_le_bytes` of the bytes at `i`. -/
def u16At (bytes : Bytes) (i : Nat) : Except Failure UInt16 := do
  let b0 ← index bytes i
  let b1 ← index bytes (i + 1)
  return UInt16.ofNat (leNat [b0, b1])

/-- `u32::from_le_bytes` of the bytes at `i`. -/
def u32At (build : Build) (bytes : Bytes) (i : Nat) : Except Failure Nat := do
  let b0 ← index bytes i
  let b1 ← index bytes (← add build i 1)
  let b2 ← index bytes (← add build i 2)
  let b3 ← index bytes (← add build i 3)
  return leNat [b0, b1, b2, b3]

/-- The start of the next chunk. -/
def nextPos (build : Build) (body size : Nat) : Except Failure Nat := do
  let bodyEnd ← add build body size
  add build bodyEnd (size &&& 1)

/-- The format in the `fmt ` chunk with its body at `body`. -/
def formatAt (build : Build) (data : Bytes) (body : Nat) : Except Failure Format := do
  let bodyEnd ← add build body 16
  if bodyEnd > data.length then .error (.error "WAV fmt chunk truncated")
  else
    let f ← range data body bodyEnd
    let channels ← u16At f 2
    let rate ← u32At build f 4
    let bits ← u16At f 14
    return { channels, rate := UInt32.ofNat rate, width := bits / 8 }

/-- The PCM data in the data chunk with its body at `body`. -/
def pcmAt (build : Build) (data : Bytes) (body size : Nat) : Except Failure Bytes :=
  if size = 0 ∨ size = 2 ^ 32 - 1 then range data body data.length
  else do
    let bodyEnd ← add build body size
    range data body (min bodyEnd data.length)

/-- The loop of `parse_wav` from `pos` on, with every access and every addition
checked. Running out of `fuel` counts as a panic. -/
def walkChunks (build : Build) (data : Bytes) :
    Nat → Option Format → Nat → Except Failure (Format × Bytes)
  | 0, _, _ => .error .panic
  | fuel + 1, format, pos => do
      let body ← add build pos 8
      if body ≤ data.length then
        let idEnd ← add build pos 4
        let id ← range data pos idEnd
        let size ← u32At build data idEnd
        if id = fmtId then
          let format ← formatAt build data body
          let next ← nextPos build body size
          walkChunks build data fuel (some format) next
        else if id = dataId then
          match format with
          | none => .error (.error "WAV data before fmt")
          | some fmt => do
              let pcm ← pcmAt build data body size
              return (fmt, pcm)
        else
          let next ← nextPos build body size
          walkChunks build data fuel format next
      else .error (.error "WAV without data chunk")

/-- `parse_wav` on a slice. -/
def parseWavSlice (build : Build) (data : Slice) : Except Failure (Format × Bytes) :=
  if data.bytes.length < 12 then
    .error (.error "TTS response is not a RIFF/WAV file")
  else do
    let start ← range data.bytes 0 4
    if start ≠ riff then .error (.error "TTS response is not a RIFF/WAV file")
    else
      let kind ← range data.bytes 8 12
      if kind ≠ wave then .error (.error "TTS response is not a RIFF/WAV file")
      else walkChunks build data.bytes data.bytes.length none 12

section Access

variable {build : Build} {data : Bytes}

theorem slice_two {bytes : Bytes} {i : Nat} (h : i + 2 ≤ bytes.length) :
    slice i 2 bytes = [bytes[i], bytes[i + 1]] := by
  rw [slice, List.drop_eq_getElem_cons (by omega),
    List.drop_eq_getElem_cons (by omega)]
  rfl

theorem u16At_of_le {bytes : Bytes} {i : Nat} (h : i + 2 ≤ bytes.length) :
    u16At bytes i = .ok (UInt16.ofNat (leNat (slice i 2 bytes))) := by
  rw [u16At, index_of_lt (by omega), index_of_lt (by omega), slice_two h]
  rfl

theorem slice_four {bytes : Bytes} {i : Nat} (h : i + 4 ≤ bytes.length) :
    slice i 4 bytes = [bytes[i], bytes[i + 1], bytes[i + 2], bytes[i + 3]] := by
  rw [slice, List.drop_eq_getElem_cons (by omega),
    List.drop_eq_getElem_cons (by omega), List.drop_eq_getElem_cons (by omega),
    List.drop_eq_getElem_cons (by omega)]
  rfl

theorem u32At_of_le {bytes : Bytes} {i : Nat} (h : i + 4 ≤ bytes.length)
    (hlength : bytes.length < 2 ^ 63) :
    u32At build bytes i = .ok (leNat (slice i 4 bytes)) := by
  rw [u32At, add, add, add, word_of_lt (by omega), word_of_lt (by omega),
    word_of_lt (by omega), index_of_lt (by omega), slice_four h]
  show (index bytes (i + 1) >>= fun b1 => index bytes (i + 2) >>= fun b2 =>
    index bytes (i + 3) >>= fun b3 => _) = _
  rw [index_of_lt (by omega), index_of_lt (by omega), index_of_lt (by omega)]
  rfl

theorem nextPos_of_lt {body size : Nat} (h : body + size + size % 2 < 2 ^ 64) :
    nextPos build body size = .ok (body + size + size % 2) := by
  rw [nextPos, Nat.and_one_is_mod, add, word_of_lt (by omega)]
  exact word_of_lt h build

theorem slice_take {bytes : Bytes} {i n m : Nat} (h : i + n ≤ m) :
    slice i n (bytes.take m) = slice i n bytes := by
  rw [slice, slice, List.drop_take, List.take_take, Nat.min_eq_left (by omega)]

/-- The first sixteen bytes are all that a format is read from. -/
theorem fmtChunk_take (body : Bytes) : fmtChunk (body.take 16) = fmtChunk body := by
  rw [fmtChunk, fmtChunk, slice_take (by omega), slice_take (by omega),
    slice_take (by omega)]

theorem formatAt_of_le {body : Nat} (h : body + 16 ≤ data.length)
    (hlength : data.length < 2 ^ 63) :
    formatAt build data body = .ok (fmtChunk (data.drop body)) := by
  have hf : ((data.drop body).take 16).length = 16 := by
    rw [List.length_take, List.length_drop]
    omega
  rw [← fmtChunk_take, formatAt, add, word_of_lt (by omega)]
  show (if body + 16 > data.length then _ else _) = _
  rw [if_neg (by omega), range_of_le (by omega) h, Nat.add_sub_cancel_left]
  show (u16At ((data.drop body).take 16) 2 >>= fun channels =>
    u32At build ((data.drop body).take 16) 4 >>= fun rate =>
      u16At ((data.drop body).take 16) 14 >>= fun bits => _) = _
  rw [u16At_of_le (by omega), u32At_of_le (by omega) (by omega),
    u16At_of_le (by omega)]
  rfl

theorem formatAt_of_gt {body : Nat} (h : data.length < body + 16)
    (hbody : body ≤ data.length) (hlength : data.length < 2 ^ 63) :
    formatAt build data body = .error (.error "WAV fmt chunk truncated") := by
  rw [formatAt, add, word_of_lt (by omega)]
  show (if body + 16 > data.length then _ else _) = _
  rw [if_pos h]

theorem pcmAt_of_le {body size : Nat} (hbody : body ≤ data.length)
    (hlength : data.length < 2 ^ 63) (hsize : size < 2 ^ 32) :
    pcmAt build data body size =
      .ok (if size = 0 ∨ size = 2 ^ 32 - 1 then data.drop body
        else (data.drop body).take size) := by
  rw [pcmAt]
  split
  · rw [range_of_le hbody (Nat.le_refl _),
      List.take_of_length_le (by rw [List.length_drop])]
  · rw [add, word_of_lt (by omega)]
    show range data body (min (body + size) data.length) = _
    rw [range_of_le (by omega) (by omega)]
    congr 1
    rcases Nat.le_total (body + size) data.length with hle | hle
    · rw [Nat.min_eq_left hle, Nat.add_sub_cancel_left]
    · rw [Nat.min_eq_right hle, List.take_of_length_le (by rw [List.length_drop]),
        List.take_of_length_le (by rw [List.length_drop]; omega)]

/-- By induction on the fuel: no position is so far behind the end that an
addition overflows, and the fuel is never used up. -/
theorem walkChunks_eq (hlength : data.length < 2 ^ 63) {fuel pos : Nat}
    (hfuel : 0 < fuel) (hshort : data.length ≤ pos + fuel)
    (hpos : pos ≤ data.length + 2 ^ 32) (format : Option Format) :
    walkChunks build data fuel format pos =
      (scanChunks fuel format (data.drop pos)).mapError .error := by
  induction fuel generalizing pos format with
  | zero => omega
  | succ fuel ih =>
      rw [walkChunks, scanChunks, add, word_of_lt (by omega), List.length_drop]
      show (if pos + 8 ≤ data.length then _ else _) = _
      by_cases hroom : pos + 8 ≤ data.length
      · have hsize : leNat (slice (pos + 4) 4 data) < 2 ^ 32 := by
          have hle : (slice (pos + 4) 4 data).length ≤ 4 := List.length_take_le _ _
          exact (leNat_lt _).trans_le (Nat.pow_le_pow_right (by omega) (by omega))
        rw [if_pos hroom, if_neg (by omega), add, word_of_lt (by omega)]
        show (range data pos (pos + 4) >>= fun id =>
          u32At build data (pos + 4) >>= fun size => _) = _
        rw [range_of_le (by omega) (by omega), u32At_of_le (by omega) hlength,
          Nat.add_sub_cancel_left]
        simp only [slice, List.drop_drop] at hsize ⊢
        generalize hword : leNat ((data.drop (pos + 4)).take 4) = size at hsize ⊢
        have hnext : nextPos build (pos + 8) size = .ok (pos + 8 + (size + size % 2)) := by
          rw [← Nat.add_assoc]
          exact nextPos_of_lt (by omega)
        have hrest : ∀ format, walkChunks build data fuel format
            (pos + 8 + (size + size % 2)) =
              (scanChunks fuel format
                (data.drop (pos + 8 + (size + size % 2)))).mapError .error :=
          ih (by omega) (by omega) (by omega)
        show (if (data.drop pos).take 4 = fmtId then _ else _) = _
        by_cases hfmt : (data.drop pos).take 4 = fmtId
        · rw [if_pos hfmt, if_pos hfmt, List.length_drop]
          by_cases hlong : data.length - (pos + 8) < 16
          · rw [if_pos hlong, formatAt_of_gt (by omega) hroom hlength]
            rfl
          · rw [if_neg hlong, formatAt_of_le (by omega) hlength, hnext]
            exact hrest _
        · rw [if_neg hfmt, if_neg hfmt]
          by_cases hdata : (data.drop pos).take 4 = dataId
          · rw [if_pos hdata, if_pos hdata]
            rcases format with _ | fmt
            · rfl
            · show (pcmAt build data (pos + 8) size >>= fun pcm => _) = _
              rw [pcmAt_of_le hroom hlength hsize]
              rfl
          · rw [if_neg hdata, if_neg hdata, hnext]
            exact hrest format
      · rw [if_neg hroom, if_pos (by omega)]
        rfl

/-- Every access of `parse_wav` is in range, in both builds. -/
theorem parseWavSlice_eq (build : Build) (data : Slice) :
    parseWavSlice build data = (parseWav data.bytes).mapError .error := by
  have hlength := data.length_lt
  rw [parseWavSlice, parseWav]
  by_cases hshort : data.bytes.length < 12
  · rw [if_pos hshort, if_pos (Or.inl hshort)]
    rfl
  · rw [if_neg hshort, range_of_le (by omega) (by omega),
      range_of_le (by omega) (by omega)]
    show (if data.bytes.take 4 ≠ riff then _ else
      if (data.bytes.drop 8).take 4 ≠ wave then _ else _) = _
    by_cases hriff : data.bytes.take 4 = riff
    · rw [if_neg (not_not.mpr hriff)]
      by_cases hwave : (data.bytes.drop 8).take 4 = wave
      · rw [if_neg (not_not.mpr hwave), if_neg (by simp [hshort, hriff, hwave])]
        exact walkChunks_eq hlength (by omega) (by omega) (by omega) none
      · rw [if_pos hwave, if_pos (Or.inr (Or.inr hwave))]
        rfl
    · rw [if_pos hriff, if_pos (Or.inr (Or.inl hriff))]
      rfl

end Access

/-- A chunk that is not the data chunk. -/
structure Chunk where
  id : Bytes
  body : Bytes
  padding : Bytes
  length_id : id.length = 4
  length_padding : padding.length = body.length % 2
  body_lt : body.length < 2 ^ 32
  not_data : id ≠ dataId
  fmt_long : id = fmtId → 16 ≤ body.length

def Chunk.encode (c : Chunk) : Bytes :=
  c.id ++ (leBytes 4 c.body.length ++ (c.body ++ c.padding))

/-- A WAV file. The chunk `fmt` is the last one with a format. -/
structure WavFile where
  riffSize : Bytes
  before : List Chunk
  fmt : Chunk
  after : List Chunk
  dataSize : Nat
  rest : Bytes
  length_riffSize : riffSize.length = 4
  fmt_id : fmt.id = fmtId
  fmt_last : ∀ c ∈ after, c.id ≠ fmtId
  dataSize_lt : dataSize < 2 ^ 32

def WavFile.chunks (w : WavFile) : List Chunk := w.before ++ w.fmt :: w.after

def WavFile.encode (w : WavFile) : Bytes :=
  riff ++ (w.riffSize ++ (wave ++ ((w.chunks.map Chunk.encode).flatten ++
    (dataId ++ (leBytes 4 w.dataSize ++ w.rest)))))

/-- The bytes of the data chunk, cut at the end of the file; a streamed file has
all bytes to its end. -/
def WavFile.pcm (w : WavFile) : Bytes :=
  if w.dataSize = 0 ∨ w.dataSize = 2 ^ 32 - 1 then w.rest
  else w.rest.take w.dataSize

section Chunks

/-- The format behind a chunk. -/
def Chunk.next (format : Option Format) (c : Chunk) : Option Format :=
  if c.id = fmtId then some (fmtChunk c.body) else format

theorem fmtChunk_append {body : Bytes} (h : 16 ≤ body.length) (rest : Bytes) :
    fmtChunk (body ++ rest) = fmtChunk body := by
  rw [← fmtChunk_take (body ++ rest), List.take_append_of_le_length h,
    fmtChunk_take]

/-- An id and a size in front of what follows. -/
theorem slices_append {id : Bytes} (hid : id.length = 4) {size : Nat}
    (hsize : size < 2 ^ 32) (rest : Bytes) :
    (id ++ (leBytes 4 size ++ rest)).take 4 = id ∧
      leNat (slice 4 4 (id ++ (leBytes 4 size ++ rest))) = size ∧
      (id ++ (leBytes 4 size ++ rest)).drop 8 = rest := by
  refine ⟨List.take_left' hid, ?_, ?_⟩
  · rw [slice, List.drop_left' hid, List.take_left' (length_leBytes 4 size)]
    exact leNat_leBytes hsize
  · rw [← List.append_assoc, List.drop_left']
    rw [List.length_append, hid, length_leBytes]

theorem scanChunks_chunk (c : Chunk) (fuel : Nat) (format : Option Format)
    (rest : Bytes) :
    scanChunks (fuel + 1) format (c.encode ++ rest) =
      scanChunks fuel (c.next format) rest := by
  have hbytes : c.encode ++ rest =
      c.id ++ (leBytes 4 c.body.length ++ (c.body ++ (c.padding ++ rest))) := by
    simp only [Chunk.encode, List.append_assoc]
  obtain ⟨hid, hsize, hbody⟩ :=
    slices_append c.length_id c.body_lt (c.body ++ (c.padding ++ rest))
  have hrest : (c.body ++ (c.padding ++ rest)).drop
      (c.body.length + c.body.length % 2) = rest := by
    rw [← List.append_assoc, List.drop_left']
    rw [List.length_append, c.length_padding]
  have hlength : ¬(c.id ++ (leBytes 4 c.body.length ++
      (c.body ++ (c.padding ++ rest)))).length < 8 := by
    rw [List.length_append, List.length_append, c.length_id, length_leBytes]
    omega
  rw [hbytes, scanChunks, if_neg hlength]
  simp only [hid, hsize, hbody, hrest]
  by_cases hfmt : c.id = fmtId
  · have hlong := c.fmt_long hfmt
    rw [if_pos hfmt, if_neg (by rw [List.length_append]; omega),
      fmtChunk_append hlong, Chunk.next, if_pos hfmt]
  · rw [if_neg hfmt, if_neg c.not_data, Chunk.next, if_neg hfmt]

theorem scanChunks_chunks (chunks : List Chunk) (fuel : Nat)
    (format : Option Format) (rest : Bytes) :
    scanChunks (fuel + chunks.length) format
        ((chunks.map Chunk.encode).flatten ++ rest) =
      scanChunks fuel (chunks.foldl Chunk.next format) rest := by
  induction chunks generalizing format with
  | nil => rfl
  | cons c chunks ih =>
      rw [List.map_cons, List.flatten_cons, List.append_assoc, List.length_cons,
        ← Nat.add_assoc, scanChunks_chunk, ih, List.foldl_cons]

theorem foldl_next_of_ne {chunks : List Chunk} (h : ∀ c ∈ chunks, c.id ≠ fmtId)
    (format : Option Format) : chunks.foldl Chunk.next format = format := by
  induction chunks with
  | nil => rfl
  | cons c chunks ih =>
      rw [List.forall_mem_cons] at h
      rw [List.foldl_cons, Chunk.next, if_neg h.1, ih h.2]

theorem scanChunks_data {size : Nat} (hsize : size < 2 ^ 32) (fuel : Nat)
    (fmt : Format) (rest : Bytes) :
    scanChunks (fuel + 1) (some fmt) (dataId ++ (leBytes 4 size ++ rest)) =
      .ok (fmt, if size = 0 ∨ size = 2 ^ 32 - 1 then rest else rest.take size) := by
  have hdata : dataId.length = 4 := rfl
  obtain ⟨hid, hword, hbody⟩ := slices_append hdata hsize rest
  have hlength : ¬(dataId ++ (leBytes 4 size ++ rest)).length < 8 := by
    rw [List.length_append, List.length_append, hdata, length_leBytes]
    omega
  rw [scanChunks, if_neg hlength]
  simp only [hid, hword, hbody]
  rw [if_neg (by decide)]
  rfl

theorem length_chunks_le (chunks : List Chunk) :
    chunks.length ≤ (chunks.map Chunk.encode).flatten.length := by
  induction chunks with
  | nil => exact Nat.le_refl _
  | cons c chunks ih =>
      rw [List.map_cons, List.flatten_cons, List.length_append, List.length_cons,
        Chunk.encode, List.length_append, c.length_id]
      omega

theorem parseWav_encode (w : WavFile) :
    parseWav w.encode = .ok (fmtChunk w.fmt.body, w.pcm) := by
  have hbody : w.encode.drop 12 = (w.chunks.map Chunk.encode).flatten ++
      (dataId ++ (leBytes 4 w.dataSize ++ w.rest)) := by
    rw [WavFile.encode, ← List.append_assoc, ← List.append_assoc, List.drop_left']
    rw [List.length_append, List.length_append, w.length_riffSize]
    rfl
  have hlength : w.encode.length =
      12 + ((w.chunks.map Chunk.encode).flatten.length + (8 + w.rest.length)) := by
    simp only [WavFile.encode, List.length_append, w.length_riffSize, length_leBytes]
    show 4 + (4 + (4 + (_ + (4 + (4 + _))))) = _
    omega
  have hriff : w.encode.take 4 = riff := List.take_left' rfl
  have hwave : (w.encode.drop 8).take 4 = wave := by
    rw [WavFile.encode, ← List.append_assoc, List.drop_left']
    · exact List.take_left' rfl
    · rw [List.length_append, w.length_riffSize]
      rfl
  have hcount := length_chunks_le w.chunks
  obtain ⟨fuel, hfuel⟩ : ∃ fuel, w.encode.length = fuel + 1 + w.chunks.length :=
    ⟨w.encode.length - 1 - w.chunks.length, by omega⟩
  rw [parseWav, if_neg (by simp [hriff, hwave]; omega), hbody, hfuel,
    scanChunks_chunks, WavFile.chunks, List.foldl_append, List.foldl_cons,
    foldl_next_of_ne w.fmt_last, Chunk.next, if_pos w.fmt_id,
    scanChunks_data w.dataSize_lt, WavFile.pcm]

end Chunks

/-- The little-endian bytes of samples. -/
def sampleBytes (pcm : List Int16) : Bytes :=
  pcm.flatMap fun s => leBytes 2 s.toUInt16.toNat

/-- A 16-bit PCM WAV file. -/
def wavBytes (build : Build) (pcm : List Int16) (rate : UInt32) (channels : UInt16) :
    Except Failure Bytes := do
  let dataLen := min (pcm.length * 2) (2 ^ 32 - 1)
  let riffSize ← narrow build 32 (36 + dataLen)
  let frameRate ← narrow build 32 (rate.toNat * channels.toNat)
  let byteRate ← narrow build 32 (frameRate * 2)
  let blockSize ← narrow build 16 (channels.toNat * 2)
  return riff ++ leBytes 4 riffSize ++ (wave ++ fmtId) ++ leBytes 4 16 ++
    leBytes 2 1 ++ leBytes 2 channels.toNat ++ leBytes 4 rate.toNat ++
    leBytes 4 byteRate ++ leBytes 2 blockSize ++ leBytes 2 16 ++ dataId ++
    leBytes 4 dataLen ++ sampleBytes pcm

section RoundTrip

variable {pcm : List Int16} {rate : UInt32} {channels : UInt16}

/-- The body of the one `fmt ` chunk that is written. -/
def formatBody (rate : UInt32) (channels : UInt16) : Bytes :=
  leBytes 2 1 ++ leBytes 2 channels.toNat ++ leBytes 4 rate.toNat ++
    leBytes 4 (rate.toNat * channels.toNat * 2) ++ leBytes 2 (channels.toNat * 2) ++
    leBytes 2 16

theorem length_sampleBytes (pcm : List Int16) :
    (sampleBytes pcm).length = pcm.length * 2 := by
  induction pcm with
  | nil => rfl
  | cons s pcm ih =>
      rw [sampleBytes, List.flatMap_cons, List.length_append, length_leBytes,
        ← sampleBytes, ih, List.length_cons]
      omega

theorem length_formatBody (rate : UInt32) (channels : UInt16) :
    (formatBody rate channels).length = 16 := by
  simp [formatBody]

/-- What is written, as a file of one format and one data chunk. -/
def writtenFile (pcm : List Int16) (rate : UInt32) (channels : UInt16)
    (h : pcm.length * 2 < 2 ^ 32) : WavFile where
  riffSize := leBytes 4 (36 + pcm.length * 2)
  before := []
  fmt :=
    { id := fmtId
      body := formatBody rate channels
      padding := []
      length_id := rfl
      length_padding := by rw [length_formatBody]; rfl
      body_lt := by rw [length_formatBody]; decide
      not_data := by decide
      fmt_long := fun _ => by rw [length_formatBody] }
  after := []
  dataSize := pcm.length * 2
  rest := sampleBytes pcm
  length_riffSize := length_leBytes 4 _
  fmt_id := rfl
  fmt_last := nofun
  dataSize_lt := h

/-- A number between other bytes. -/
theorem leNat_slice {start count n : Nat} {before : Bytes}
    (hbefore : before.length = start) (hn : n < 2 ^ (8 * count)) (after : Bytes) :
    leNat (slice start count (before ++ (leBytes count n ++ after))) = n := by
  rw [slice, List.drop_left' hbefore, List.take_left' (length_leBytes count n)]
  exact leNat_leBytes hn

theorem fmtChunk_formatBody (rate : UInt32) (channels : UInt16) :
    fmtChunk (formatBody rate channels) = { rate, width := 2, channels } := by
  have hchannels : leNat (slice 2 2 (formatBody rate channels)) = channels.toNat := by
    simp only [formatBody, List.append_assoc]
    exact leNat_slice (length_leBytes 2 1) channels.toNat_lt _
  have hrate : leNat (slice 4 4 (formatBody rate channels)) = rate.toNat := by
    rw [formatBody, List.append_assoc _ (leBytes 2 _), List.append_assoc _ (leBytes 4 _),
      List.append_assoc _ (leBytes 4 _)]
    exact leNat_slice (by simp) rate.toNat_lt _
  have hbits : leNat (slice 14 2 (formatBody rate channels)) = 16 := by
    rw [formatBody, ← List.append_nil (leBytes 2 16)]
    exact leNat_slice (by simp) (by decide) []
  rw [fmtChunk, hchannels, hrate, hbits, UInt16.ofNat_toNat, UInt32.ofNat_toNat]
  rfl

theorem pcm_writtenFile (h : pcm.length * 2 < 2 ^ 32) :
    (writtenFile pcm rate channels h).pcm = sampleBytes pcm := by
  have hlength := length_sampleBytes pcm
  rw [WavFile.pcm]
  split
  · rfl
  · exact List.take_of_length_le (Nat.le_of_eq hlength)

theorem wavBytes_eq_encode (h : 36 + pcm.length * 2 < 2 ^ 32)
    (hrate : rate.toNat * channels.toNat * 2 < 2 ^ 32)
    (hblock : channels.toNat * 2 < 2 ^ 16) (build : Build) :
    wavBytes build pcm rate channels =
      .ok (writtenFile pcm rate channels (by omega)).encode := by
  have hmin : min (pcm.length * 2) (2 ^ 32 - 1) = pcm.length * 2 := by omega
  rw [wavBytes, hmin, narrow_of_lt h, narrow_of_lt (by omega : rate.toNat * channels.toNat < _)]
  show (narrow build 32 (rate.toNat * channels.toNat * 2) >>= fun byteRate =>
    narrow build 16 (channels.toNat * 2) >>= fun blockSize => _) = _
  rw [narrow_of_lt hrate, narrow_of_lt hblock]
  show Except.ok _ = _
  simp only [WavFile.encode, WavFile.chunks, writtenFile, Chunk.encode, formatBody,
    List.append_assoc, List.nil_append, List.map_cons, List.map_nil,
    List.flatten_cons, List.flatten_nil, List.append_nil, List.length_append,
    length_leBytes, Nat.reduceAdd]

end RoundTrip

/-- Every access of `parse_wav` is in range, for every slice and in both builds;
the chunks of a file are read as they are; and what `wav_bytes` writes is read
back. -/
theorem parseWav_reads (build : Build) :
    (∀ data : Slice,
      parseWavSlice build data = (parseWav data.bytes).mapError .error) ∧
    (∀ w : WavFile, parseWav w.encode = .ok (fmtChunk w.fmt.body, w.pcm)) ∧
    ∀ (pcm : List Int16) (rate : UInt32) (channels : UInt16),
      36 + pcm.length * 2 < 2 ^ 32 → rate.toNat * channels.toNat * 2 < 2 ^ 32 →
      channels.toNat * 2 < 2 ^ 16 →
      ∃ wav, wavBytes build pcm rate channels = .ok wav ∧
        parseWav wav = .ok ({ rate, width := 2, channels }, sampleBytes pcm) := by
  refine ⟨parseWavSlice_eq build, parseWav_encode, ?_⟩
  intro pcm rate channels hpcm hrate hblock
  refine ⟨_, wavBytes_eq_encode hpcm hrate hblock build, ?_⟩
  rw [parseWav_encode, pcm_writtenFile]
  show Except.ok (fmtChunk (formatBody rate channels), _) = _
  rw [fmtChunk_formatBody]

theorem parseWav_reads_shortTone :
    ∃ wav, wavBytes .debug [0, 1000, -1000] 24000 1 = .ok wav ∧
      parseWav wav = .ok (⟨24000, 2, 1⟩, [0, 0, 232, 3, 24, 252]) := by
  obtain ⟨wav, hwritten, hread⟩ := (parseWav_reads .debug).2.2 [0, 1000, -1000] 24000 1
    (by decide) (by decide) (by decide)
  exact ⟨wav, hwritten, hread⟩

end AssistantHub.WavFiles
