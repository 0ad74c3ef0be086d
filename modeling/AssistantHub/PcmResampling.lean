import AssistantHub.PcmFrames
import AssistantHub.Rounding
import AssistantHub.WavFiles

namespace AssistantHub.PcmResampling

open AssistantHub.BuildArithmetic
open AssistantHub.CheckedAccess
open AssistantHub.LittleEndian
open AssistantHub.PcmAudio
open AssistantHub.PcmFrames
open AssistantHub.Rounding
open AssistantHub.WavFiles

/-- The operators that the resampling uses of a number type. -/
structure Arithmetic (F : Type) where
  ofNat : Nat → F
  ofU32 : UInt32 → F
  ofInt : Int → F
  add : F → F → F
  sub : F → F → F
  mul : F → F → F
  div : F → F → F
  toUsize : F → Nat
  roundToI32 : F → Int

def floats : Arithmetic Float where
  ofNat := Float.ofNat
  ofU32 := UInt32.toFloat
  ofInt := Float.ofInt
  add := (· + ·)
  sub := (· - ·)
  mul := (· * ·)
  div := (· / ·)
  toUsize x := x.toUInt64.toNat
  roundToI32 x := x.round.toInt32.toInt

/-- Rational numbers with `fl` behind each operator: exact for the identity, and
as `f64` for its rounding. -/
def rationals (fl : ℚ → ℚ) : Arithmetic ℚ where
  ofNat n := fl n
  ofU32 n := n.toNat
  ofInt n := n
  add a b := fl (a + b)
  sub a b := fl (a - b)
  mul a b := fl (a * b)
  div a b := fl (a / b)
  toUsize q := min ⌊q⌋.toNat (2 ^ 64 - 1)
  roundToI32 q := max (-2 ^ 31) (min (2 ^ 31 - 1) (roundHalfAway q))

section Resampling

variable {F : Type} (ar : Arithmetic F)

/-- `idx` of the sample at `i`. -/
def position (step : F) (i : Nat) : Nat := ar.toUsize (ar.mul (ar.ofNat i) step)

/-- `interpolate` in any arithmetic. -/
def interpolateWith (samples : List Int) (step : F) (i : Nat) : Int16 :=
  let pos := ar.mul (ar.ofNat i) step
  let idx := ar.toUsize pos
  let frac := ar.sub pos (ar.ofNat idx)
  let a := ar.ofInt (samples.getD (min idx (samples.length - 1)) 0)
  let b := ar.ofInt (samples.getD (min (idx + 1) (samples.length - 1)) 0)
  clamp (ar.roundToI32 (ar.add a (ar.mul (ar.sub b a) frac)))

def outLen (samples : List Int) (format : Format) (rate : UInt32) : Nat :=
  samples.length * rate.toNat % 2 ^ 64 / format.rate.toNat

def stepOf (format : Format) (rate : UInt32) : F :=
  ar.div (ar.ofU32 format.rate) (ar.ofU32 rate)

/-- `to_mono_i16` in any arithmetic. -/
def toMonoWith (data : Bytes) (format : Format) (rate : UInt32) : List Int16 :=
  let samples := mono data format
  if format.rate = rate ∨ format.rate = 0 ∨ samples = [] then samples.map clamp
  else
    (List.range (outLen samples format rate)).map
      (interpolateWith ar samples (stepOf ar format rate))

/-- The length of a list without one, which panics for an empty list. -/
def lastIndex (samples : List Int) : Except Failure Nat :=
  if samples.length = 0 then .error .panic else .ok (samples.length - 1)

def interpolateChecked (build : Build) (samples : List Int) (step : F) (i : Nat) :
    Except Failure Int16 := do
  let pos := ar.mul (ar.ofNat i) step
  let idx := ar.toUsize pos
  let frac := ar.sub pos (ar.ofNat idx)
  let last ← lastIndex samples
  let a ← index samples (min idx last)
  let next ← add build idx 1
  let b ← index samples (min next last)
  let a := ar.ofInt a
  let b := ar.ofInt b
  return clamp (ar.roundToI32 (ar.add a (ar.mul (ar.sub b a) frac)))

/-- `to_mono_i16`, with every sum, product and access checked. -/
def toMonoChecked (build : Build) (data : Bytes) (format : Format) (rate : UInt32) :
    Except Failure (List Int16) := do
  let samples ← monoChecked build data format
  if format.rate = rate ∨ format.rate = 0 ∨ samples = [] then
    return samples.map clamp
  else
    let product ← mul build samples.length rate.toNat
    (List.range (product / format.rate.toNat)).mapM
      (interpolateChecked ar build samples (stepOf ar format rate))

end Resampling

theorem toMonoI16_eq (data : Bytes) (format : Format) (rate : UInt32) :
    toMonoI16 data format rate = toMonoWith floats data format rate := rfl

section Checks

variable {F : Type} {ar : Arithmetic F} {build : Build} {data : Bytes}
  {format : Format} {rate : UInt32}

theorem interpolateChecked_eq {samples : List Int} (hne : samples ≠ []) {step : F}
    {i : Nat} (hpos : position ar step i + 1 < 2 ^ 64) :
    interpolateChecked ar build samples step i =
      .ok (interpolateWith ar samples step i) := by
  have hlength := List.length_pos_iff.mpr hne
  have hget : ∀ j, index samples (min j (samples.length - 1)) =
      .ok (samples.getD (min j (samples.length - 1)) 0) := by
    intro j
    have hj : min j (samples.length - 1) < samples.length := by omega
    rw [index_of_lt hj, List.getD_eq_getElem?_getD, List.getElem?_eq_getElem hj,
      Option.getD_some]
  rw [interpolateChecked, lastIndex, if_neg (by omega)]
  show (index samples (min (position ar step i) (samples.length - 1)) >>= fun a =>
    add build (position ar step i) 1 >>= fun next =>
      index samples (min next (samples.length - 1)) >>= fun b => _) = _
  rw [hget, add, word_of_lt hpos]
  show (index samples (min (position ar step i + 1) (samples.length - 1)) >>=
    fun b => _) = _
  rw [hget]
  rfl

theorem length_mono_lt (hdata : data.length < 2 ^ 32) :
    (mono data format).length < 2 ^ 32 := by
  rw [length_mono]
  exact (Nat.div_le_self _ _).trans_lt hdata

theorem product_lt (hdata : data.length < 2 ^ 32) :
    (mono data format).length * rate.toNat < 2 ^ 64 := by
  have hlength := @length_mono_lt data format hdata
  have hrate := rate.toNat_lt
  calc (mono data format).length * rate.toNat
      ≤ (2 ^ 32 - 1) * (2 ^ 32 - 1) := Nat.mul_le_mul (by omega) (by omega)
    _ < 2 ^ 64 := by decide

theorem outLen_mono (hdata : data.length < 2 ^ 32) :
    outLen (mono data format) format rate =
      data.length / frameSize format * rate.toNat / format.rate.toNat := by
  rw [outLen, Nat.mod_eq_of_lt (product_lt hdata), length_mono]

theorem toMonoChecked_eq (hdata : data.length < 2 ^ 32)
    (hpos : ∀ i < outLen (mono data format) format rate,
      position ar (stepOf ar format rate) i + 1 < 2 ^ 64) :
    toMonoChecked ar build data format rate = .ok (toMonoWith ar data format rate) := by
  rw [toMonoChecked, monoChecked_eq]
  show (if format.rate = rate ∨ format.rate = 0 ∨ mono data format = [] then _
    else mul build (mono data format).length rate.toNat >>= fun product => _) = _
  rw [toMonoWith]
  split
  · rfl
  · rename_i hresampled
    rw [mul, word_of_lt (product_lt hdata)]
    show (List.range ((mono data format).length * rate.toNat / format.rate.toNat)).mapM
      (interpolateChecked ar build (mono data format) (stepOf ar format rate)) = _
    have hlength : (mono data format).length * rate.toNat / format.rate.toNat =
        outLen (mono data format) format rate := by
      rw [outLen, Nat.mod_eq_of_lt (product_lt hdata)]
    rw [hlength]
    refine mapM_of_ok fun i hi => ?_
    exact interpolateChecked_eq (fun hnil => hresampled (Or.inr (Or.inr hnil)))
      (hpos i (List.mem_range.mp hi))

end Checks

section Positions

variable {data : Bytes} {format : Format} {rate : UInt32} {fl : ℚ → ℚ}

/-- Rounding keeps the sign and at most doubles a number. -/
def Near (fl : ℚ → ℚ) : Prop := ∀ ⦃q⦄, 0 ≤ q → 0 ≤ fl q ∧ fl q ≤ 2 * q

theorem near_id : Near id := by
  intro q h
  exact ⟨h, by simp only [id]; linarith⟩

theorem near_roundF64 : Near roundF64 := fun _ => roundF64_bounds

theorem outLen_mul_le {samples : List Int} {i : Nat}
    (hi : i < outLen samples format rate) :
    (i + 1) * format.rate.toNat ≤ samples.length * rate.toNat := by
  rw [outLen] at hi
  have hmod := Nat.mod_le (samples.length * rate.toNat) (2 ^ 64)
  exact (Nat.mul_le_of_le_div _ _ _ hi).trans hmod

/-- In exact arithmetic a position lies before the end of the old samples. -/
theorem exact_position_lt {samples : List Int} (hfrom : format.rate ≠ 0) {i : Nat}
    (hi : i < outLen samples format rate) :
    0 < rate.toNat ∧
      (i : ℚ) * (format.rate.toNat / rate.toNat) < samples.length := by
  have hpos : 0 < format.rate.toNat := by
    rw [Nat.pos_iff_ne_zero]
    intro hzero
    exact hfrom (UInt32.toNat_inj.mp hzero)
  have hle := outLen_mul_le hi
  have hrate : 0 < rate.toNat := by
    rcases Nat.eq_zero_or_pos rate.toNat with hzero | hrate
    · rw [hzero, Nat.mul_zero] at hle
      exact absurd hle (Nat.not_le.mpr (Nat.mul_pos i.succ_pos hpos))
    · exact hrate
  have hlt : i * format.rate.toNat < samples.length * rate.toNat := by
    rw [Nat.add_mul, Nat.one_mul] at hle
    omega
  refine ⟨hrate, ?_⟩
  rw [← mul_div_assoc, div_lt_iff₀ (by exact_mod_cast hrate)]
  exact_mod_cast hlt

theorem position_lt (hfl : Near fl) (hdata : data.length < 2 ^ 32)
    (hfrom : format.rate ≠ 0) {i : Nat}
    (hi : i < outLen (mono data format) format rate) :
    position (rationals fl) (stepOf (rationals fl) format rate) i + 1 < 2 ^ 64 := by
  obtain ⟨hrate, hexact⟩ := exact_position_lt hfrom hi
  have hlength := @length_mono_lt data format hdata
  have hstep : (0 : ℚ) ≤ format.rate.toNat / rate.toNat := by positivity
  obtain ⟨hstep0, hstep2⟩ := hfl hstep
  obtain ⟨hi0, hi2⟩ := hfl (Nat.cast_nonneg i : (0 : ℚ) ≤ i)
  obtain ⟨hpos0, hpos2⟩ := hfl (mul_nonneg hi0 hstep0)
  have hbound : fl (fl i * fl (format.rate.toNat / rate.toNat)) < 2 ^ 35 := by
    calc fl (fl i * fl (format.rate.toNat / rate.toNat))
        ≤ 2 * (fl i * fl (format.rate.toNat / rate.toNat)) := hpos2
      _ ≤ 2 * (2 * i * (2 * (format.rate.toNat / rate.toNat))) := by
          gcongr
      _ = 8 * (i * (format.rate.toNat / rate.toNat)) := by ring
      _ < 8 * (mono data format).length := by linarith
      _ ≤ 2 ^ 35 := by exact_mod_cast (by omega : 8 * (mono data format).length ≤ 2 ^ 35)
  have hfloor : ⌊fl (fl i * fl (format.rate.toNat / rate.toNat))⌋ < 2 ^ 35 :=
    Int.floor_lt.mpr (by exact_mod_cast hbound)
  show min ⌊fl (fl i * fl (format.rate.toNat / rate.toNat))⌋.toNat (2 ^ 64 - 1) + 1 < _
  omega

end Positions

section Between

variable {data : Bytes} {format : Format} {rate : UInt32}

/-- A point on the way from `a` to `b`. -/
theorem between (a b : ℚ) {t : ℚ} (h0 : 0 ≤ t) (h1 : t ≤ 1) :
    min a b ≤ a + (b - a) * t ∧ a + (b - a) * t ≤ max a b := by
  rcases le_total a b with h | h
  · rw [min_eq_left h, max_eq_right h]
    constructor <;> nlinarith
  · rw [min_eq_right h, max_eq_left h]
    constructor <;> nlinarith

theorem floor_position (format : Format) (rate : UInt32) (i : Nat) :
    ⌊(i : ℚ) * (format.rate.toNat / rate.toNat)⌋ =
      (i * format.rate.toNat / rate.toNat : Nat) := by
  rw [← mul_div_assoc, ← Nat.cast_mul, Rat.floor_natCast_div_natCast]
  rfl

theorem exact_position {samples : List Int} (hfrom : format.rate ≠ 0) {i : Nat}
    (hi : i < outLen samples format rate) (hlength : samples.length < 2 ^ 32) :
    position (rationals id) (stepOf (rationals id) format rate) i =
        i * format.rate.toNat / rate.toNat ∧
      i * format.rate.toNat / rate.toNat < samples.length := by
  obtain ⟨-, hexact⟩ := exact_position_lt hfrom hi
  have hlt : i * format.rate.toNat / rate.toNat < samples.length := by
    have hcast := Int.floor_lt.mpr (by exact_mod_cast hexact :
      (i : ℚ) * (format.rate.toNat / rate.toNat) < (samples.length : Int))
    rw [floor_position] at hcast
    exact Int.ofNat_lt.mp hcast
  refine ⟨?_, hlt⟩
  show min ⌊(i : ℚ) * (format.rate.toNat / rate.toNat)⌋.toNat (2 ^ 64 - 1) = _
  rw [floor_position, Int.toNat_natCast]
  exact Nat.min_eq_left (by omega)

theorem interpolateWith_between {samples : List Int}
    (hbounds : ∀ v ∈ samples, -2 ^ 15 ≤ v ∧ v < 2 ^ 15)
    (hlength : samples.length < 2 ^ 32) (hfrom : format.rate ≠ 0) {i : Nat}
    (hi : i < outLen samples format rate) :
    ∃ a ∈ samples[i * format.rate.toNat / rate.toNat]?,
      ∃ b ∈ samples[min (i * format.rate.toNat / rate.toNat + 1) (samples.length - 1)]?,
        min a b ≤ (interpolateWith (rationals id) samples
            (stepOf (rationals id) format rate) i).toInt ∧
          (interpolateWith (rationals id) samples
            (stepOf (rationals id) format rate) i).toInt ≤ max a b := by
  obtain ⟨hidx, hlt⟩ := exact_position hfrom hi hlength
  have hnext : min (i * format.rate.toNat / rate.toNat + 1) (samples.length - 1) <
      samples.length := by omega
  refine ⟨_, List.getElem?_eq_getElem hlt, _, List.getElem?_eq_getElem hnext, ?_⟩
  have ha := hbounds _ (List.getElem_mem hlt)
  have hb := hbounds _ (List.getElem_mem hnext)
  have hfloor := floor_position format rate i
  obtain ⟨frac, hfrac⟩ : ∃ frac : ℚ, frac = i * (format.rate.toNat / rate.toNat) -
      (i * format.rate.toNat / rate.toNat : Nat) := ⟨_, rfl⟩
  have hlow : 0 ≤ frac := by
    have hle := Int.floor_le ((i : ℚ) * (format.rate.toNat / rate.toNat))
    rw [hfloor, Int.cast_natCast] at hle
    linarith
  have hhigh : frac ≤ 1 := by
    have hlt := Int.lt_floor_add_one ((i : ℚ) * (format.rate.toNat / rate.toNat))
    rw [hfloor, Int.cast_natCast] at hlt
    linarith
  have hsample : interpolateWith (rationals id) samples
      (stepOf (rationals id) format rate) i =
        clamp (max (-2 ^ 31) (min (2 ^ 31 - 1) (roundHalfAway
          (samples[i * format.rate.toNat / rate.toNat] +
            (samples[min (i * format.rate.toNat / rate.toNat + 1)
              (samples.length - 1)] -
                samples[i * format.rate.toNat / rate.toNat]) * frac)))) := by
    rw [position] at hidx
    rw [interpolateWith]
    simp only [hidx]
    rw [Nat.min_eq_left (by omega), List.getD_eq_getElem?_getD,
      List.getD_eq_getElem?_getD, List.getElem?_eq_getElem hlt,
      List.getElem?_eq_getElem hnext, Option.getD_some, Option.getD_some, hfrac]
    rfl
  generalize samples[i * format.rate.toNat / rate.toNat] = a at ha hsample ⊢
  generalize samples[min (i * format.rate.toNat / rate.toNat + 1)
    (samples.length - 1)] = b at hb hsample ⊢
  obtain ⟨hmin, hmax⟩ := between (a : ℚ) b hlow hhigh
  rw [← Int.cast_min] at hmin
  rw [← Int.cast_max] at hmax
  obtain ⟨hround, hround'⟩ := roundHalfAway_bounds hmin hmax
  rw [hsample, clamp_of_bounds (by omega)]
  omega

end Between

section Results

variable {F : Type} (ar : Arithmetic F) {data : Bytes} {format : Format}
  {rate : UInt32}

theorem toMonoChecked_rationals {fl : ℚ → ℚ} (hfl : Near fl)
    (hdata : data.length < 2 ^ 32) (build : Build) :
    toMonoChecked (rationals fl) build data format rate =
      .ok (toMonoWith (rationals fl) data format rate) := by
  refine toMonoChecked_eq hdata fun i hi => ?_
  by_cases hfrom : format.rate = 0
  · rw [outLen, hfrom] at hi
    exact absurd hi (by simp)
  · exact position_lt hfl hdata hfrom hi

theorem toMonoWith_of_same (h : format.rate = rate ∨ format.rate = 0) :
    (toMonoWith ar data format rate).map Int16.toInt = mono data format := by
  have hsame : format.rate = rate ∨ format.rate = 0 ∨ mono data format = [] :=
    h.imp_right Or.inl
  rw [toMonoWith]
  simp only [if_pos hsame]
  exact map_clamp_mono data format

theorem toMonoWith_sampleBytes (pcm : List Int16) (hrate : format.rate = rate)
    (hwidth : format.width = 2) (hchannels : format.channels.toNat ≤ 1) :
    toMonoWith ar (sampleBytes pcm) format rate = pcm := by
  have hmono := @toMonoWith_of_same _ ar (sampleBytes pcm) format rate (Or.inl hrate)
  rw [sampleBytes, mono_sampleBytes hwidth hchannels, ← sampleBytes] at hmono
  exact List.map_injective_iff.mpr (fun _ _ => Int16.toInt.inj) hmono

theorem toMonoWith_of_resampled (hne : format.rate ≠ rate) (hfrom : format.rate ≠ 0) :
    toMonoWith ar data format rate =
      (List.range (outLen (mono data format) format rate)).map
        (interpolateWith ar (mono data format) (stepOf ar format rate)) := by
  rw [toMonoWith]
  split
  · rename_i hsame
    obtain hrate | hzero | hnil := hsame
    · exact absurd hrate hne
    · exact absurd hzero hfrom
    · rw [hnil, outLen, List.length_nil, Nat.zero_mul, Nat.zero_mod, Nat.zero_div]
      rfl
  · rfl

end Results

/-- The code is the one program at the arithmetic of `f64`. For data of less than
4 GiB every sum, product and access is in range, in exact arithmetic and with the
rounding of `f64`. Without a change of the rate the
averages are the samples; with one, their number is as announced and each lies,
in exact arithmetic, between two neighbouring averages. -/
theorem toMonoI16_in_range (build : Build) (data : Bytes)
    (hdata : data.length < 2 ^ 32) (format : Format) (rate : UInt32) :
    toMonoI16 data format rate = toMonoWith floats data format rate ∧
    (∀ fl, fl = id ∨ fl = roundF64 →
      toMonoChecked (rationals fl) build data format rate =
        .ok (toMonoWith (rationals fl) data format rate)) ∧
    (mono data format).length = data.length / frameSize format ∧
    (format.rate = rate ∨ format.rate = 0 →
      (toMonoI16 data format rate).map Int16.toInt = mono data format) ∧
    (∀ pcm : List Int16, format.rate = rate → format.width = 2 →
      format.channels.toNat ≤ 1 → data = sampleBytes pcm →
      toMonoI16 data format rate = pcm) ∧
    (format.rate ≠ rate → format.rate ≠ 0 →
      (toMonoI16 data format rate).length =
        data.length / frameSize format * rate.toNat / format.rate.toNat ∧
      ∀ (i : Nat) (s : Int16),
        (toMonoWith (rationals id) data format rate)[i]? = some s →
        ∃ a ∈ (mono data format)[i * format.rate.toNat / rate.toNat]?,
          ∃ b ∈ (mono data format)[min (i * format.rate.toNat / rate.toNat + 1)
              ((mono data format).length - 1)]?,
            min a b ≤ s.toInt ∧ s.toInt ≤ max a b) := by
  refine ⟨toMonoI16_eq data format rate, ?_, length_mono data format, ?_, ?_, ?_⟩
  · rintro fl (rfl | rfl)
    · exact toMonoChecked_rationals near_id hdata build
    · exact toMonoChecked_rationals near_roundF64 hdata build
  · intro h
    exact toMonoWith_of_same floats h
  · rintro pcm hrate hwidth hchannels rfl
    exact toMonoWith_sampleBytes floats pcm hrate hwidth hchannels
  · intro hne hfrom
    constructor
    · rw [toMonoI16_eq, toMonoWith_of_resampled floats hne hfrom, List.length_map,
        List.length_range, outLen_mono hdata]
    · intro i s hs
      rw [toMonoWith_of_resampled _ hne hfrom, List.getElem?_map,
        Option.map_eq_some_iff] at hs
      obtain ⟨j, hj, rfl⟩ := hs
      obtain ⟨hi, hij⟩ := List.getElem?_eq_some_iff.mp hj
      rw [List.getElem_range] at hij
      subst hij
      rw [List.length_range] at hi
      exact interpolateWith_between (mono_bounds data format) (length_mono_lt hdata)
        hfrom hi

/-- Three frames of two channels, at three times the rate. -/
def stereoFrames : Bytes := sampleBytes [1000, 3000, 1000, 3000, 1000, 3000]

theorem toMonoI16_in_range_stereoFrames :
    toMonoI16 (sampleBytes [1, -2, 3]) Format.stt 16000 = [1, -2, 3] ∧
      (toMonoI16 stereoFrames ⟨48000, 2, 2⟩ 16000).length = 1 ∧
      ∀ s, (toMonoWith (rationals id) stereoFrames ⟨48000, 2, 2⟩ 16000)[0]? = some s →
        s.toInt = 2000 := by
  obtain ⟨-, -, -, -, hcopy, -⟩ :=
    toMonoI16_in_range .debug (sampleBytes [1, -2, 3]) (by decide) Format.stt 16000
  obtain ⟨-, -, -, -, -, hresampled⟩ :=
    toMonoI16_in_range .debug stereoFrames (by decide) ⟨48000, 2, 2⟩ 16000
  obtain ⟨hlength, hbetween⟩ := hresampled (by decide) (by decide)
  have hmono : mono stereoFrames ⟨48000, 2, 2⟩ = [2000, 2000, 2000] := by decide
  refine ⟨hcopy _ rfl rfl (by decide) rfl, hlength, fun s hs => ?_⟩
  obtain ⟨a, ha, b, hb, hmin, hmax⟩ := hbetween 0 s hs
  rw [hmono] at ha hb
  obtain rfl := Option.some.inj ha
  obtain rfl := Option.some.inj hb
  exact le_antisymm hmax hmin

end AssistantHub.PcmResampling
