import AssistantHub.Rounding
import Mathlib.Tactic.FieldSimp
import Mathlib.Tactic.Linarith
import Mathlib.Tactic.NormNum
import Mathlib.Tactic.Ring

namespace AssistantHub.RoundedRatios

open AssistantHub.Rounding

/-- `m as f64 / n as f64` -/
def ratioF64 (m n : Nat) : ℚ := roundF64 (roundF64 m / roundF64 n)

theorem abs_roundHalfEven_sub_le (q : ℚ) : |roundHalfEven q - q| ≤ 1 / 2 := by
  have hlow := Int.floor_le q
  have hhigh := Int.lt_floor_add_one q
  rw [roundHalfEven, abs_le]
  split
  · constructor <;> linarith
  · split
    · push_cast
      constructor <;> linarith
    · split
      · constructor <;> linarith
      · push_cast
        constructor <;> linarith

theorem abs_roundF64_sub_le {q : ℚ} (h : 0 < q) : |roundF64 q - q| ≤ q / 2 ^ 53 := by
  rw [roundF64, abs_of_pos h]
  have hlog : (2 : ℚ) ^ Int.log 2 q ≤ q := Int.zpow_log_le_self (by norm_num) h
  have hunit : (0 : ℚ) < 2 ^ (Int.log 2 q - 52) := zpow_pos (by norm_num) _
  have hscale : (2 : ℚ) ^ (Int.log 2 q - 52) = 2 ^ Int.log 2 q / 2 ^ 52 := by
    rw [zpow_sub₀ (by norm_num)]
    norm_num
  generalize hu : (2 : ℚ) ^ (Int.log 2 q - 52) = unit at *
  have hround := abs_roundHalfEven_sub_le (q / unit)
  have hq : q = q / unit * unit := (div_mul_cancel₀ q hunit.ne').symm
  calc |roundHalfEven (q / unit) * unit - q|
      = |roundHalfEven (q / unit) - q / unit| * unit := by
        rw [← abs_of_pos hunit, ← abs_mul, abs_of_pos hunit, sub_mul, ← hq]
    _ ≤ 1 / 2 * unit := mul_le_mul_of_nonneg_right hround hunit.le
    _ = 2 ^ Int.log 2 q / 2 ^ 53 := by
        rw [hscale]
        ring
    _ ≤ q / 2 ^ 53 := by
        gcongr

theorem roundF64_lt_of_lt {x y : ℚ} (hx : 0 < x) (hy : 0 < y)
    (h : x * (2 ^ 53 + 1) < y * (2 ^ 53 - 1)) : roundF64 x < roundF64 y := by
  have hlow := (abs_le.mp (abs_roundF64_sub_le hx)).2
  have hhigh := (abs_le.mp (abs_roundF64_sub_le hy)).1
  have hgap : x + x / 2 ^ 53 < y - y / 2 ^ 53 := by
    have hscale : (0 : ℚ) < 2 ^ 53 := by norm_num
    rw [← mul_lt_mul_iff_left₀ hscale, add_mul, sub_mul, div_mul_cancel₀ _ hscale.ne',
      div_mul_cancel₀ _ hscale.ne']
    linarith
  linarith

theorem roundF64_natCast {n : Nat} (h : n < 2 ^ 53) : roundF64 n = n := by
  rcases Nat.eq_zero_or_pos n with rfl | hpos
  · rw [Nat.cast_zero, roundF64_zero]
  · have hlog : Int.log 2 (n : ℚ) = Nat.log 2 n := Int.log_natCast 2 n
    have hbits : Nat.log 2 n < 53 := Nat.log_lt_of_lt_pow hpos.ne' h
    have hunit : (2 : ℚ) ^ ((Nat.log 2 n : Int) - 52) = (2 ^ (52 - Nat.log 2 n))⁻¹ := by
      rw [← zpow_natCast, ← zpow_neg]
      congr 1
      omega
    rw [roundF64, Nat.abs_cast, hlog, hunit, div_inv_eq_mul]
    have hwhole : (n : ℚ) * 2 ^ (52 - Nat.log 2 n) = ((n * 2 ^ (52 - Nat.log 2 n) : Int) : ℚ) := by
      push_cast
      rfl
    rw [hwhole, roundHalfEven_intCast]
    push_cast
    rw [mul_assoc, mul_inv_cancel₀ (pow_ne_zero _ (by norm_num)), mul_one]

/-- The quotient of two numbers is compared with a fraction as if nothing were rounded. -/
theorem le_ratioF64_iff {a b m n : Nat} (ha : 0 < a) (hb : 0 < b) (hm : 0 < m) (hn : 0 < n)
    (hmn : m < 2 ^ 53) (hnn : n < 2 ^ 53) (hbound : (a * n + b * m) < 2 ^ 53) :
    roundF64 (a / b) ≤ ratioF64 m n ↔ a * n ≤ b * m := by
  have hbq : (0 : ℚ) < b := by exact_mod_cast hb
  have hnq : (0 : ℚ) < n := by exact_mod_cast hn
  have haq : (0 : ℚ) < a / b := div_pos (by exact_mod_cast ha) hbq
  have hmq : (0 : ℚ) < m / n := div_pos (by exact_mod_cast hm) hnq
  have hcast : ((a * n + b * m : Nat) : ℚ) < 2 ^ 53 := by exact_mod_cast hbound
  push_cast at hcast
  rw [ratioF64, roundF64_natCast hmn, roundF64_natCast hnn]
  -- Fractions that differ do so by one over the product of their denominators.
  rcases Nat.lt_trichotomy (a * n) (b * m) with hlt | heq | hgt
  · have hstep : (a * n : ℚ) + 1 ≤ b * m := by exact_mod_cast hlt
    refine iff_of_true (le_of_lt (roundF64_lt_of_lt haq hmq ?_)) hlt.le
    rw [div_mul_eq_mul_div, div_mul_eq_mul_div, div_lt_div_iff₀ hbq hnq]
    nlinarith
  · have hsame : (a / b : ℚ) = m / n := by
      rw [div_eq_div_iff hbq.ne' hnq.ne', mul_comm (m : ℚ)]
      exact_mod_cast heq
    rw [hsame]
    exact iff_of_true le_rfl heq.le
  · have hstep : (b * m : ℚ) + 1 ≤ a * n := by exact_mod_cast hgt
    refine iff_of_false (not_le.mpr (roundF64_lt_of_lt hmq haq ?_)) (not_le.mpr hgt)
    rw [div_mul_eq_mul_div, div_mul_eq_mul_div, div_lt_div_iff₀ hnq hbq]
    nlinarith

end AssistantHub.RoundedRatios
