import Mathlib.Data.Int.Log
import Mathlib.Data.Rat.Floor

namespace AssistantHub.Rounding

/-- The nearest whole number, of two equally near ones the even one. -/
def roundHalfEven (q : ℚ) : Int :=
  let below := ⌊q⌋
  let rest := q - below
  if rest < 1 / 2 then below
  else if 1 / 2 < rest then below + 1
  else if below % 2 = 0 then below
  else below + 1

@[simp] theorem roundHalfEven_intCast (n : Int) : roundHalfEven n = n := by
  rw [roundHalfEven, Int.floor_intCast, sub_self]
  exact if_pos (by norm_num)

/-- The nearest number with a significand of 24 bits: `f32` without its limits
on the exponent. -/
def roundF32 (q : ℚ) : ℚ :=
  let unit := (2 : ℚ) ^ (Int.log 2 |q| - 23)
  roundHalfEven (q / unit) * unit

@[simp] theorem roundF32_zero : roundF32 0 = 0 := by
  rw [roundF32, zero_div]
  simp [roundHalfEven]

/-- The nearest number with a significand of 53 bits: `f64` without its limits
on the exponent. -/
def roundF64 (q : ℚ) : ℚ :=
  let unit := (2 : ℚ) ^ (Int.log 2 |q| - 52)
  roundHalfEven (q / unit) * unit

/-- `f64::round`, of two equally near whole numbers the one farther from zero. -/
def roundHalfAway (q : ℚ) : Int :=
  if 0 ≤ q then ⌊q + 1 / 2⌋ else ⌈q - 1 / 2⌉

/-- `n as f32 / d as f32`. -/
def ratioF32 (n d : Nat) : ℚ := roundF32 (roundF32 n / roundF32 d)

@[simp] theorem ratioF32_zero (d : Nat) : ratioF32 0 d = 0 := by
  rw [ratioF32, Nat.cast_zero, roundF32_zero, zero_div, roundF32_zero]

theorem roundHalfEven_bounds (q : ℚ) :
    ⌊q⌋ ≤ roundHalfEven q ∧ roundHalfEven q ≤ ⌊q⌋ + 1 := by
  rw [roundHalfEven]
  split
  · omega
  · split
    · omega
    · split <;> omega

@[simp] theorem roundF64_zero : roundF64 0 = 0 := by
  rw [roundF64, zero_div]
  simp [roundHalfEven]

/-- Rounding keeps the sign and at most doubles a number. -/
theorem roundF64_bounds {q : ℚ} (h : 0 ≤ q) : 0 ≤ roundF64 q ∧ roundF64 q ≤ 2 * q := by
  rcases h.eq_or_lt with rfl | hpos
  · rw [roundF64_zero, mul_zero]
    exact ⟨le_rfl, le_rfl⟩
  · rw [roundF64, abs_of_pos hpos]
    have hunit : (0 : ℚ) < 2 ^ (Int.log 2 q - 52) := zpow_pos (by norm_num) _
    have hone : 1 ≤ q / 2 ^ (Int.log 2 q - 52) := by
      rw [le_div_iff₀ hunit, one_mul]
      calc (2 : ℚ) ^ (Int.log 2 q - 52) ≤ 2 ^ Int.log 2 q :=
            zpow_le_zpow_right₀ (by norm_num) (by omega)
        _ ≤ q := Int.zpow_log_le_self (by norm_num) hpos
    obtain ⟨hlow, hhigh⟩ := roundHalfEven_bounds (q / 2 ^ (Int.log 2 q - 52))
    have hfloor : (1 : Int) ≤ ⌊q / 2 ^ (Int.log 2 q - 52)⌋ :=
      Int.le_floor.mpr (by exact_mod_cast hone)
    have hround : (roundHalfEven (q / 2 ^ (Int.log 2 q - 52)) : ℚ) ≤
        2 * (q / 2 ^ (Int.log 2 q - 52)) := by
      have hbelow := Int.floor_le (q / 2 ^ (Int.log 2 q - 52))
      have hcast : (roundHalfEven (q / 2 ^ (Int.log 2 q - 52)) : ℚ) ≤
          ⌊q / 2 ^ (Int.log 2 q - 52)⌋ + 1 := by exact_mod_cast hhigh
      linarith
    constructor
    · refine mul_nonneg ?_ hunit.le
      exact_mod_cast (by omega : (0 : Int) ≤ _)
    · calc (roundHalfEven (q / 2 ^ (Int.log 2 q - 52)) : ℚ) * 2 ^ (Int.log 2 q - 52)
          ≤ 2 * (q / 2 ^ (Int.log 2 q - 52)) * 2 ^ (Int.log 2 q - 52) :=
            mul_le_mul_of_nonneg_right hround hunit.le
        _ = 2 * q := by rw [mul_assoc, div_mul_cancel₀ q hunit.ne']

/-- A number between two whole numbers is rounded to one between them. -/
theorem roundHalfAway_bounds {q : ℚ} {a b : Int} (ha : (a : ℚ) ≤ q) (hb : q ≤ b) :
    a ≤ roundHalfAway q ∧ roundHalfAway q ≤ b := by
  rw [roundHalfAway]
  split
  · rw [Int.le_floor, Int.floor_le_iff]
    constructor <;> linarith
  · rw [Int.le_ceil_iff, Int.ceil_le]
    constructor <;> linarith

example : roundF32 (1 / 5) = 13421773 / 2 ^ 26 := by decide +kernel

end AssistantHub.Rounding
