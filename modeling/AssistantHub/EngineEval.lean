import AssistantHub.Rounding
import Mathlib.Algebra.BigOperators.Group.List.Basic
import Mathlib.Algebra.Order.BigOperators.Group.List
import Mathlib.Algebra.Order.Field.Rat
import Mathlib.Data.List.Sort
import Mathlib.Tactic.Linarith

namespace AssistantHub.EngineEval

open Rounding

/-- The result of one question in one repeat, with the parts that the summary
reads. -/
structure Sample where
  knownFailure : Bool
  correct : Bool
  emptyReply : Bool
  toolError : Bool
  error : Option String
  wallS : ℚ
  promptN : Nat
  maxRoundPromptN : Nat
  promptMs : ℚ
  predictedN : Nat
  predictedMs : ℚ

structure Summary where
  gatingTotal : Nat
  gatingCorrect : Nat
  knownFailureTotal : Nat
  knownFailureCorrect : Nat
  emptyReplies : Nat
  toolErrors : Nat
  errors : Nat
  firstSampleS : ℚ
  meanS : ℚ
  medianS : ℚ
  promptTps : ℚ
  generationTps : ℚ
  processedPerQuestion : ℚ
  maxProcessedRound : Nat

structure Report where
  summary : Summary
  samples : List Sample

def mean (v : List ℚ) : ℚ := if v.isEmpty then 0 else v.sum / v.length

def median (times : List ℚ) : ℚ :=
  let n := times.length
  if n = 0 then 0
  else if n % 2 = 1 then times.getD (n / 2) 0
  else (times.getD (n / 2 - 1) 0 + times.getD (n / 2) 0) / 2

def Summary.fromSamples (samples : List Sample) : Summary :=
  let gating := samples.filter fun s => !s.knownFailure
  let known := samples.filter fun s => s.knownFailure
  let rest := samples.drop 1
  let times := (rest.map Sample.wallS).insertionSort fun a b => a ≤ b
  let promptMs := (samples.map Sample.promptMs).sum
  let predictedMs := (samples.map Sample.predictedMs).sum
  let promptN := (samples.map Sample.promptN).sum
  let predictedN := (samples.map Sample.predictedN).sum
  { gatingTotal := gating.length
    gatingCorrect := gating.countP fun s => s.correct
    knownFailureTotal := known.length
    knownFailureCorrect := known.countP fun s => s.correct
    emptyReplies := samples.countP fun s => s.emptyReply
    toolErrors := samples.countP fun s => s.toolError
    errors := samples.countP fun s => s.error.isSome
    firstSampleS := (samples.head?.map Sample.wallS).getD 0
    meanS := mean times
    medianS := median times
    promptTps := if 0 < promptMs then promptN * 1000 / promptMs else 0
    generationTps :=
      if 0 < predictedMs then predictedN * 1000 / predictedMs else 0
    processedPerQuestion := mean (rest.map fun s => (s.promptN : ℚ))
    maxProcessedRound := ((rest.map Sample.maxRoundPromptN).max?).getD 0 }

def report (samples : List Sample) : Report :=
  { summary := Summary.fromSamples samples, samples := samples }

/-- What engine B must achieve against engine A. -/
structure Gate where
  qualitySlack : ℚ
  timeGain : ℚ
  firstGain : ℚ

def Gate.default : Gate :=
  { qualitySlack := 0.05, timeGain := 0.20, firstGain := 0.30 }

structure Verdict where
  pass : Bool
  lines : List String

def rate (n total : Nat) : ℚ := if total = 0 then 0 else n / total

/-- A number with `digits` decimals. -/
def fixed (digits : Nat) (q : ℚ) : String :=
  let n := (roundHalfEven (|q| * 10 ^ digits)).toNat
  let whole := toString (n / 10 ^ digits)
  let fraction := toString (n % 10 ^ digits)
  let padded := "".pushn '0' (digits - fraction.length) ++ fraction
  (if q < 0 then "-" else "") ++ whole ++
    (if digits = 0 then "" else "." ++ padded)

example : fixed 1 (16 / 3) = "5.3" := by decide +kernel

/-- One line of the verdict for each check. -/
def verdict (checks : List (Bool × String)) : Verdict :=
  { pass := checks.all Prod.fst
    lines := checks.map fun c =>
      (if c.1 then "PASS" else "FAIL") ++ " " ++ c.2 }

/-- Decides whether B may replace A. -/
def compare (a b : Report) (gate : Gate) : Verdict :=
  let sa := a.summary
  let sb := b.summary
  let qa := rate sa.gatingCorrect sa.gatingTotal
  let qb := rate sb.gatingCorrect sb.gatingTotal
  let ea := rate sa.emptyReplies a.samples.length
  let eb := rate sb.emptyReplies b.samples.length
  let ta := rate sa.toolErrors a.samples.length
  let tb := rate sb.toolErrors b.samples.length
  let perQuestion := decide (sb.meanS ≤ sa.meanS * (1 - gate.timeGain))
  let first := decide (sb.firstSampleS ≤ sa.firstSampleS * (1 - gate.firstGain))
  verdict
    [(decide (qa ≤ qb + gate.qualitySlack),
      "correct answers " ++ fixed 0 (qb * 100) ++ "% against " ++
        fixed 0 (qa * 100) ++ "% (slack " ++
        fixed 0 (gate.qualitySlack * 100) ++ " points)"),
    (decide (eb ≤ ea + gate.qualitySlack),
      "empty replies " ++ fixed 0 (eb * 100) ++ "% against " ++
        fixed 0 (ea * 100) ++ "%"),
    (decide (tb ≤ ta + gate.qualitySlack),
      "tool errors " ++ fixed 0 (tb * 100) ++ "% against " ++
        fixed 0 (ta * 100) ++ "%"),
    (decide (sb.errors = 0), toString sb.errors ++ " failed requests"),
    (perQuestion || first,
      "speed: " ++ fixed 1 sb.meanS ++ " s against " ++ fixed 1 sa.meanS ++
        " s per question (needs " ++ fixed 0 (gate.timeGain * 100) ++
        "% less), first request " ++ fixed 1 sb.firstSampleS ++
        " s against " ++ fixed 1 sa.firstSampleS ++ " s (needs " ++
        fixed 0 (gate.firstGain * 100) ++ "% less)")]

/-- More than the one sample of the full prefill, and no time is zero. -/
structure Timed (samples : List Sample) : Prop where
  two : 2 ≤ samples.length
  positive : ∀ s ∈ samples, 0 < s.wallS

theorem mean_pos {v : List ℚ} (hne : v ≠ []) (hpos : ∀ x ∈ v, 0 < x) :
    0 < mean v := by
  rw [mean, if_neg (mt List.isEmpty_iff.mp hne)]
  exact div_pos (List.sum_pos v hpos hne)
    (Nat.cast_pos.mpr (List.length_pos_iff.mpr hne))

theorem meanS_pos {samples : List Sample} (h : Timed samples) :
    0 < (Summary.fromSamples samples).meanS := by
  show 0 < mean (((samples.drop 1).map Sample.wallS).insertionSort _)
  have hperm := List.perm_insertionSort (fun a b => a ≤ b)
    ((samples.drop 1).map Sample.wallS)
  refine mean_pos ?_ fun x hx => ?_
  · have htwo := h.two
    rw [← List.length_pos_iff, hperm.length_eq, List.length_map,
      List.length_drop]
    omega
  · obtain ⟨s, hs, rfl⟩ := List.mem_map.mp (hperm.mem_iff.mp hx)
    exact h.positive s (List.mem_of_mem_drop hs)

theorem firstSampleS_pos {samples : List Sample} (h : Timed samples) :
    0 < (Summary.fromSamples samples).firstSampleS := by
  obtain ⟨htwo, hpositive⟩ := h
  rcases samples with _ | ⟨s, samples⟩
  · exact absurd htwo (Nat.not_succ_le_zero 1)
  · exact hpositive s List.mem_cons_self

theorem speed_of_pass {a b : Report} {gate : Gate}
    (h : (compare a b gate).pass = true) :
    b.summary.meanS ≤ a.summary.meanS * (1 - gate.timeGain) ∨
      b.summary.firstSampleS ≤
        a.summary.firstSampleS * (1 - gate.firstGain) := by
  have hspeed :
      (decide (b.summary.meanS ≤ a.summary.meanS * (1 - gate.timeGain)) ||
        decide (b.summary.firstSampleS ≤
          a.summary.firstSampleS * (1 - gate.firstGain))) = true :=
    List.all_eq_true.mp h _ (List.mem_of_getLast? rfl)
  rw [Bool.or_eq_true, decide_eq_true_iff, decide_eq_true_iff] at hspeed
  exact hspeed

theorem speed_of_pass_default {as bs : List Sample}
    (h : (compare (report as) (report bs) .default).pass = true) :
    (report bs).summary.meanS ≤ (report as).summary.meanS * (4 / 5) ∨
      (report bs).summary.firstSampleS ≤
        (report as).summary.firstSampleS * (7 / 10) := by
  have hspeed := speed_of_pass h
  have hgains : (1 - Gate.default.timeGain = 4 / 5) ∧
      1 - Gate.default.firstGain = 7 / 10 := by
    constructor
    · norm_num [Gate.default]
    · norm_num [Gate.default]
  rwa [hgains.1, hgains.2] at hspeed

/-- Each of the two engines is much faster than the other in one of the two
times. -/
def Crossed (sa sb : Summary) : Prop :=
  sb.meanS ≤ sa.meanS * (4 / 5) ∧
      sa.firstSampleS ≤ sb.firstSampleS * (7 / 10) ∨
    sa.meanS ≤ sb.meanS * (4 / 5) ∧
      sb.firstSampleS ≤ sa.firstSampleS * (7 / 10)

/-- Two engines may replace each other only when each is the faster one in
another of the two times; none may replace itself. -/
theorem compare_both_ways {as bs : List Sample} (has : Timed as)
    (hbs : Timed bs) :
    ((compare (report as) (report bs) .default).pass = true →
      (compare (report bs) (report as) .default).pass = true →
      Crossed (report as).summary (report bs).summary) ∧
    (compare (report as) (report as) .default).pass = false ∧
    ((compare (report as) (report bs) .default).pass = true →
      (report bs).summary.meanS < (report as).summary.meanS ∨
        (report bs).summary.firstSampleS <
          (report as).summary.firstSampleS) := by
  have hma : 0 < (report as).summary.meanS := meanS_pos has
  have hmb : 0 < (report bs).summary.meanS := meanS_pos hbs
  have hfa : 0 < (report as).summary.firstSampleS := firstSampleS_pos has
  have hfb : 0 < (report bs).summary.firstSampleS := firstSampleS_pos hbs
  refine ⟨?_, ?_, ?_⟩
  · intro hab hba
    rcases speed_of_pass_default hab with hmean | hfirst
    · rcases speed_of_pass_default hba with hmean' | hfirst'
      · linarith
      · exact Or.inl ⟨hmean, hfirst'⟩
    · rcases speed_of_pass_default hba with hmean' | hfirst'
      · exact Or.inr ⟨hmean', hfirst⟩
      · linarith
  · by_contra hpass
    rcases speed_of_pass_default (Bool.not_eq_false _ ▸ hpass) with
      hmean | hfirst
    · linarith
    · linarith
  · intro hab
    rcases speed_of_pass_default hab with hmean | hfirst
    · exact Or.inl (by linarith)
    · exact Or.inr (by linarith)

/-- A correct answer after the given time. -/
def answered (wallS : ℚ) : Sample :=
  { knownFailure := false
    correct := true
    emptyReply := false
    toolError := false
    error := none
    wallS := wallS
    promptN := 100
    maxRoundPromptN := 100
    promptMs := 1000
    predictedN := 10
    predictedMs := 100 }

theorem timed_answered {first second : ℚ} (hfirst : 0 < first)
    (hsecond : 0 < second) : Timed [answered first, answered second] where
  two := Nat.le_refl 2
  positive := by
    intro s hs
    rcases List.mem_cons.mp hs with rfl | hs
    · exact hfirst
    · rw [List.mem_singleton.mp hs]
      exact hsecond

theorem pass_of_faster_first :
    (compare (report [answered 45, answered 6])
      (report [answered 20, answered 8]) .default).pass = true := by
  decide +kernel

theorem pass_of_faster_later :
    (compare (report [answered 20, answered 8])
      (report [answered 45, answered 6]) .default).pass = true := by
  decide +kernel

theorem compare_both_ways_of_two :
    Crossed (report [answered 45, answered 6]).summary
        (report [answered 20, answered 8]).summary ∧
      (compare (report [answered 45, answered 6])
        (report [answered 45, answered 6]) .default).pass = false ∧
      ((report [answered 20, answered 8]).summary.meanS <
          (report [answered 45, answered 6]).summary.meanS ∨
        (report [answered 20, answered 8]).summary.firstSampleS <
          (report [answered 45, answered 6]).summary.firstSampleS) := by
  have hfirst : Timed [answered 45, answered 6] :=
    timed_answered (by norm_num) (by norm_num)
  have hlater : Timed [answered 20, answered 8] :=
    timed_answered (by norm_num) (by norm_num)
  obtain ⟨hcrossed, hself, hfaster⟩ := compare_both_ways hfirst hlater
  exact ⟨hcrossed pass_of_faster_first pass_of_faster_later, hself,
    hfaster pass_of_faster_first⟩

/-- One engine needs less time for the first request, the other one for all
later ones. -/
theorem compare_passes_both_ways :
    (compare (report [answered 45, answered 6])
        (report [answered 20, answered 8]) .default).pass = true ∧
      (compare (report [answered 20, answered 8])
        (report [answered 45, answered 6]) .default).pass = true :=
  ⟨pass_of_faster_first, pass_of_faster_later⟩

end AssistantHub.EngineEval
