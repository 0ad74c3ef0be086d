import AssistantHub.CheckedAccess
import AssistantHub.Fallible
import AssistantHub.PcmAudio

namespace AssistantHub.PcmFrames

open AssistantHub.BuildArithmetic
open AssistantHub.CheckedAccess
open AssistantHub.Chunks
open AssistantHub.LittleEndian
open AssistantHub.PcmAudio

/-- `decode_sample`, with its accesses checked. -/
def decodeSampleChecked (bytes : Bytes) : Except Failure Int :=
  match bytes.length with
  | 1 => do
      let b0 ← index bytes 0
      return ((b0.toNat : Int) - 128) * 2 ^ 8
  | 2 => do
      let b0 ← index bytes 0
      let b1 ← index bytes 1
      return leInt [b0, b1]
  | 3 => do
      let b0 ← index bytes 0
      let b1 ← index bytes 1
      let b2 ← index bytes 2
      return leInt [0, b0, b1, b2] / 2 ^ 16
  | 4 => do
      let b0 ← index bytes 0
      let b1 ← index bytes 1
      let b2 ← index bytes 2
      let b3 ← index bytes 3
      return leInt [b0, b1, b2, b3] / 2 ^ 16
  | _ => return 0

/-- Adding two `i32`. -/
def addI32 (build : Build) (a b : Int) : Except Failure Int :=
  if -2 ^ 31 ≤ a + b ∧ a + b < 2 ^ 31 then .ok (a + b)
  else
    match build with
    | .debug => .error .panic
    | .release => .ok ((a + b).bmod (2 ^ 32))

/-- `chunks_exact`, which panics for a size of zero. -/
def chunksExactChecked (n : Nat) (xs : Bytes) : Except Failure (List Bytes) :=
  if n = 0 then .error .panic else .ok (chunksExact n xs)

/-- The average of a frame. -/
def averageChecked (build : Build) (width channels : Nat) (frame : Bytes) :
    Except Failure Int := do
  let parts ← chunksExactChecked width frame
  let decoded ← parts.mapM decodeSampleChecked
  let sum ← decoded.foldlM (addI32 build) 0
  return sum.tdiv channels

/-- The averages of all frames. -/
def monoChecked (build : Build) (data : Bytes) (format : Format) :
    Except Failure (List Int) := do
  let width := max 1 format.width.toNat
  let channels := max 1 format.channels.toNat
  let frame ← mul build width channels
  let frames ← chunksExactChecked frame data
  frames.mapM (averageChecked build width channels)

section Samples

theorem leInt_cases (bytes : Bytes) :
    2 * leNat bytes < 2 ^ (8 * bytes.length) ∧ leInt bytes = leNat bytes ∨
      2 ^ (8 * bytes.length) ≤ 2 * leNat bytes ∧
        leInt bytes = leNat bytes - 2 ^ (8 * bytes.length) := by
  by_cases h : 2 * leNat bytes < 2 ^ (8 * bytes.length)
  · exact Or.inl ⟨h, if_pos h⟩
  · exact Or.inr ⟨Nat.not_lt.mp h, if_neg h⟩

theorem leInt_two_bounds (b0 b1 : UInt8) :
    -2 ^ 15 ≤ leInt [b0, b1] ∧ leInt [b0, b1] < 2 ^ 15 := by
  have hlt := leNat_lt [b0, b1]
  have hcases := leInt_cases [b0, b1]
  simp only [List.length_cons, List.length_nil] at hlt hcases
  omega

/-- An arithmetic shift by 16 bits leaves the high half. -/
theorem leInt_four_shift (b0 b1 b2 b3 : UInt8) :
    leInt [b0, b1, b2, b3] / 2 ^ 16 = leInt [b2, b3] := by
  have h0 := b0.toNat_lt
  have h1 := b1.toNat_lt
  have hwhole := leInt_cases [b0, b1, b2, b3]
  have hhalf := leInt_cases [b2, b3]
  simp only [leNat, List.length_cons, List.length_nil] at hwhole hhalf
  omega

theorem decodeSampleChecked_eq (bytes : Bytes) :
    decodeSampleChecked bytes = .ok (decodeSample bytes) := by
  rcases bytes with _ | ⟨b0, _ | ⟨b1, _ | ⟨b2, _ | ⟨b3, _ | ⟨b4, bytes⟩⟩⟩⟩⟩
  · rfl
  · show Except.ok (((b0.toNat : Int) - 128) * 2 ^ 8) = _
    rw [decodeSample.eq_def]
    simp [leNat]
  · rfl
  · show Except.ok (leInt [0, b0, b1, b2] / 2 ^ 16) = _
    rw [leInt_four_shift]
    rfl
  · show Except.ok (leInt [b0, b1, b2, b3] / 2 ^ 16) = _
    rw [leInt_four_shift]
    rfl
  · rfl

theorem decodeSample_bounds (bytes : Bytes) :
    -2 ^ 15 ≤ decodeSample bytes ∧ decodeSample bytes < 2 ^ 15 := by
  rcases bytes with _ | ⟨b0, _ | ⟨b1, _ | ⟨b2, _ | ⟨b3, _ | ⟨b4, bytes⟩⟩⟩⟩⟩
  · decide
  · have h0 := b0.toNat_lt
    rw [decodeSample.eq_def]
    simp only [List.length_cons, List.length_nil, leNat]
    omega
  · exact leInt_two_bounds b0 b1
  · exact leInt_two_bounds b1 b2
  · exact leInt_two_bounds b2 b3
  · show (-2 ^ 15 : Int) ≤ 0 ∧ (0 : Int) < 2 ^ 15
    decide

end Samples

section Averages

variable {build : Build}

/-- What one frame adds up to, without a limit. -/
def frameSum (width : Nat) (frame : Bytes) : Int :=
  ((chunksExact width frame).map decodeSample).sum

theorem addI32_of_bounds {a b : Int} (hlow : -2 ^ 31 ≤ a + b) (hhigh : a + b < 2 ^ 31) :
    addI32 build a b = .ok (a + b) := by
  rw [addI32.eq_def, if_pos ⟨hlow, hhigh⟩]

/-- The partial sums stay in range when the bound on all summands does. -/
theorem foldlM_addI32 {xs : List Int} (h : ∀ x ∈ xs, -2 ^ 15 ≤ x ∧ x < 2 ^ 15)
    {start : Int} (hlow : -2 ^ 31 ≤ start - 2 ^ 15 * xs.length)
    (hhigh : start + 2 ^ 15 * xs.length < 2 ^ 31) :
    xs.foldlM (addI32 build) start = .ok (start + xs.sum) := by
  induction xs generalizing start with
  | nil =>
      rw [List.sum_nil, Int.add_zero]
      rfl
  | cons x xs ih =>
      rw [List.forall_mem_cons] at h
      rw [List.length_cons] at hlow hhigh
      rw [List.foldlM_cons, addI32_of_bounds (by omega) (by omega)]
      show xs.foldlM (addI32 build) (start + x) = _
      rw [ih h.2 (by omega) (by omega), List.sum_cons, Int.add_assoc]

theorem sum_bounds {xs : List Int} (h : ∀ x ∈ xs, -2 ^ 15 ≤ x ∧ x < 2 ^ 15) :
    -2 ^ 15 * xs.length ≤ xs.sum ∧ xs.sum ≤ (2 ^ 15 - 1) * xs.length := by
  induction xs with
  | nil => exact ⟨Int.le_refl _, Int.le_refl _⟩
  | cons x xs ih =>
      rw [List.forall_mem_cons] at h
      have hrest := ih h.2
      rw [List.sum_cons, List.length_cons]
      omega

theorem decoded_bounds (width : Nat) (frame : Bytes) :
    ∀ x ∈ (chunksExact width frame).map decodeSample, -2 ^ 15 ≤ x ∧ x < 2 ^ 15 := by
  intro x hx
  obtain ⟨bytes, -, rfl⟩ := List.mem_map.mp hx
  exact decodeSample_bounds bytes

/-- The sum over at most 65535 channels fits in an `i32`. -/
theorem averageChecked_eq {width channels : Nat} (hwidth : 0 < width)
    (hchannels : channels < 2 ^ 16) {frame : Bytes}
    (hframe : frame.length = width * channels) :
    averageChecked build width channels frame =
      .ok ((frameSum width frame).tdiv channels) := by
  have hcount : (chunksExact width frame).length = channels := by
    rw [length_chunksExact hwidth, hframe, Nat.mul_div_cancel_left _ hwidth]
  have hdecoded : (chunksExact width frame).mapM decodeSampleChecked =
      .ok ((chunksExact width frame).map decodeSample) :=
    mapM_of_ok fun bytes _ => decodeSampleChecked_eq bytes
  have hsum : ((chunksExact width frame).map decodeSample).foldlM (addI32 build) 0 =
      .ok (0 + frameSum width frame) := by
    refine foldlM_addI32 (decoded_bounds width frame) ?_ ?_
    · rw [List.length_map, hcount]
      omega
    · rw [List.length_map, hcount]
      omega
  rw [averageChecked, chunksExactChecked, if_neg (by omega)]
  show ((chunksExact width frame).mapM decodeSampleChecked >>= fun decoded =>
    decoded.foldlM (addI32 build) 0 >>= fun sum => _) = _
  rw [hdecoded]
  show (((chunksExact width frame).map decodeSample).foldlM (addI32 build) 0 >>=
    fun sum => _) = _
  rw [hsum, Int.zero_add]
  rfl

theorem average_bounds {width channels : Nat} (hwidth : 0 < width)
    (hchannels : 0 < channels) {frame : Bytes}
    (hframe : frame.length = width * channels) :
    -2 ^ 15 ≤ (frameSum width frame).tdiv channels ∧
      (frameSum width frame).tdiv channels < 2 ^ 15 := by
  have hcount : (chunksExact width frame).length = channels := by
    rw [length_chunksExact hwidth, hframe, Nat.mul_div_cancel_left _ hwidth]
  have hsum := sum_bounds (decoded_bounds width frame)
  rw [List.length_map, hcount] at hsum
  have hpos : (0 : Int) < channels := by omega
  obtain ⟨hlow, hhigh⟩ := hsum
  rw [← frameSum] at hlow hhigh
  rcases Int.le_total 0 (frameSum width frame) with hsign | hsign
  · have hlt : frameSum width frame / channels < 2 ^ 15 :=
      Int.ediv_lt_of_lt_mul hpos (by omega)
    have hnonneg := Int.ediv_nonneg hsign (Int.le_of_lt hpos)
    rw [Int.tdiv_eq_ediv_of_nonneg hsign]
    omega
  · have hle : -frameSum width frame / channels ≤ 2 ^ 15 :=
      Int.ediv_le_of_le_mul hpos (by omega)
    have hnonneg : 0 ≤ -frameSum width frame / channels :=
      Int.ediv_nonneg (by omega) (Int.le_of_lt hpos)
    rw [← Int.neg_neg (frameSum width frame), Int.neg_tdiv,
      Int.tdiv_eq_ediv_of_nonneg (by omega)]
    omega

theorem monoChecked_eq (data : Bytes) (format : Format) :
    monoChecked build data format = .ok (mono data format) := by
  have hwidth := format.width.toNat_lt
  have hchannels := format.channels.toNat_lt
  have hframe : max 1 format.width.toNat * max 1 format.channels.toNat < 2 ^ 64 := by
    have hle : max 1 format.width.toNat * max 1 format.channels.toNat ≤
        2 ^ 16 * 2 ^ 16 := Nat.mul_le_mul (by omega) (by omega)
    omega
  have hpos : 0 < max 1 format.width.toNat * max 1 format.channels.toNat :=
    Nat.mul_pos (by omega) (by omega)
  rw [monoChecked, mul, word_of_lt hframe]
  show (chunksExactChecked (max 1 format.width.toNat * max 1 format.channels.toNat)
    data >>= fun frames => _) = _
  rw [chunksExactChecked, if_neg (by omega)]
  exact mapM_of_ok fun frame hmem =>
    averageChecked_eq (by omega) (by omega) (length_of_mem_chunksExact hmem)

/-- The whole frames of the data. -/
def frameSize (format : Format) : Nat :=
  max 1 format.width.toNat * max 1 format.channels.toNat

theorem frameSize_pos (format : Format) : 0 < frameSize format :=
  Nat.mul_pos (by omega) (by omega)

theorem length_mono (data : Bytes) (format : Format) :
    (mono data format).length = data.length / frameSize format :=
  (List.length_map _).trans (length_chunksExact (frameSize_pos format) data)

theorem mono_bounds (data : Bytes) (format : Format) :
    ∀ v ∈ mono data format, -2 ^ 15 ≤ v ∧ v < 2 ^ 15 := by
  intro v hv
  obtain ⟨frame, hframe, rfl⟩ := List.mem_map.mp hv
  exact average_bounds (by omega) (by omega) (length_of_mem_chunksExact hframe)

theorem clamp_of_bounds {v : Int} (h : -2 ^ 15 ≤ v ∧ v < 2 ^ 15) :
    (clamp v).toInt = v := by
  have hclamp : max (-2 ^ 15) (min (2 ^ 15 - 1) v) = v := by omega
  rw [clamp, hclamp]
  exact Int16.toInt_ofInt_of_le (by simpa using h.1) (by simpa using h.2)

theorem map_clamp_mono (data : Bytes) (format : Format) :
    ((mono data format).map clamp).map Int16.toInt = mono data format := by
  rw [List.map_map]
  refine (List.map_congr_left fun v hv => ?_).trans (List.map_id _)
  exact clamp_of_bounds (mono_bounds data format v hv)

theorem leInt_sample (s : Int16) : leInt (leBytes 2 s.toUInt16.toNat) = s.toInt := by
  have hword : leNat (leBytes 2 s.toUInt16.toNat) = s.toUInt16.toNat :=
    leNat_leBytes s.toUInt16.toNat_lt
  rw [leInt, hword, length_leBytes]
  exact (BitVec.toInt_eq_toNat_cond s.toBitVec).symm

/-- 16-bit samples of one channel are their own averages. -/
theorem mono_sampleBytes {format : Format} (hwidth : format.width = 2)
    (hchannels : format.channels.toNat ≤ 1) (pcm : List Int16) :
    mono (pcm.flatMap fun s => leBytes 2 s.toUInt16.toNat) format =
      pcm.map Int16.toInt := by
  have hrows : ∀ r ∈ pcm.map fun s => leBytes 2 s.toUInt16.toNat, r.length = 2 := by
    simp
  have hwide : max 1 format.width.toNat = 2 := by
    rw [hwidth]
    rfl
  have hone : max 1 format.channels.toNat = 1 := by omega
  simp only [mono, hwide, hone]
  rw [List.flatMap_def, Nat.mul_one, chunksExact_flatten (by omega) hrows, List.map_map]
  refine List.map_congr_left fun s _ => ?_
  have hframe : chunksExact 2 (leBytes 2 s.toUInt16.toNat) =
      [leBytes 2 s.toUInt16.toNat] := by
    have hsingle := @chunksExact_flatten _ 2 Nat.zero_lt_two
      [leBytes 2 s.toUInt16.toNat] (by simp)
    rwa [List.flatten_singleton] at hsingle
  simp only [Function.comp_apply, hframe, List.map_cons, List.map_nil, List.sum_cons,
    List.sum_nil, Int.add_zero]
  show (leInt (leBytes 2 s.toUInt16.toNat)).tdiv 1 = s.toInt
  rw [leInt_sample, Int.tdiv_one]

end Averages

end AssistantHub.PcmFrames
