import Mathlib.Algebra.BigOperators.Group.List.Basic
import Mathlib.Data.Nat.Basic

namespace AssistantHub.BuildArithmetic

/-- A debug build stops at an overflow, a release build wraps. -/
inductive Build
  | debug
  | release
  deriving DecidableEq, Repr

/-- How a computation ends without a value. -/
inductive Failure
  | panic
  | error (text : String)
  deriving DecidableEq, Repr

/-- The result of an operator on 64-bit words, from the exact one. -/
def word (build : Build) (n : Nat) : Except Failure Nat :=
  if n < 2 ^ 64 then .ok n
  else
    match build with
    | .debug => .error .panic
    | .release => .ok (n % 2 ^ 64)

def add (build : Build) (a b : Nat) : Except Failure Nat := word build (a + b)

def mul (build : Build) (a b : Nat) : Except Failure Nat := word build (a * b)

/-- The nearest 64-bit word. -/
def cap (n : Nat) : Nat := min n (2 ^ 64 - 1)

def saturatingAdd (a b : Nat) : Nat := cap (a + b)

def saturatingMul (a b : Nat) : Nat := cap (a * b)

/-- The first multiple of `unit` that is at least `n`. -/
def roundUp (n unit : Nat) : Nat := (n + unit - 1) / unit * unit

theorem word_of_lt {n : Nat} (h : n < 2 ^ 64) (build : Build) :
    word build n = .ok n := by
  rw [word.eq_def, if_pos h]

theorem word_debug_of_le {n : Nat} (h : 2 ^ 64 ≤ n) :
    word .debug n = .error .panic := by
  rw [word.eq_def, if_neg (by omega)]

theorem cap_of_lt {n : Nat} (h : n < 2 ^ 64) : cap n = n := by
  rw [cap]
  omega

theorem saturatingAdd_le {a b bound : Nat} (h : a + b ≤ bound) :
    saturatingAdd a b ≤ bound :=
  (Nat.min_le_left _ _).trans h

theorem cap_mul_cap (n d : Nat) : cap (cap n * d) = cap (n * d) := by
  rcases Nat.lt_or_ge n (2 ^ 64) with h | h
  · rw [cap_of_lt h]
  · rcases Nat.eq_zero_or_pos d with rfl | hd
    · rfl
    · have hcap : cap n = 2 ^ 64 - 1 := by
        rw [cap]
        omega
      have hlow : 2 ^ 64 - 1 ≤ (2 ^ 64 - 1) * d := Nat.le_mul_of_pos_right _ hd
      have hhigh : n ≤ n * d := Nat.le_mul_of_pos_right _ hd
      rw [hcap, cap, cap]
      omega

/-- A product that saturates at each step saturates as a whole. -/
theorem foldl_saturatingMul (factors : List Nat) (n : Nat) :
    factors.foldl saturatingMul (cap n) = cap (n * factors.prod) := by
  induction factors generalizing n with
  | nil => rw [List.foldl_nil, List.prod_nil, Nat.mul_one]
  | cons d factors ih =>
      rw [List.foldl_cons, saturatingMul, cap_mul_cap, ih, List.prod_cons,
        Nat.mul_assoc]

theorem le_roundUp {n unit : Nat} (h : 0 < unit) : n ≤ roundUp n unit := by
  have hdiv := Nat.div_add_mod (n + unit - 1) unit
  have hmod := Nat.mod_lt (n + unit - 1) h
  rw [roundUp, Nat.mul_comm]
  omega

theorem roundUp_of_mod_eq_zero {n unit : Nat} (h : 0 < unit) (hmod : n % unit = 0) :
    roundUp n unit = n := by
  obtain ⟨k, rfl⟩ := Nat.dvd_of_mod_eq_zero hmod
  rw [roundUp, Nat.add_sub_assoc h, Nat.mul_add_div h,
    Nat.div_eq_of_lt (by omega), Nat.add_zero, Nat.mul_comm]

theorem roundUp_of_mod_ne_zero {n unit : Nat} (h : 0 < unit) (hmod : n % unit ≠ 0) :
    roundUp n unit = n + (unit - n % unit) := by
  have hlt := Nat.mod_lt n h
  have hdiv := Nat.div_add_mod n unit
  have hsum : n + unit - 1 = unit * (n / unit + 1) + (n % unit - 1) := by
    rw [Nat.mul_succ]
    omega
  have hsmall : n % unit - 1 < unit := by omega
  rw [roundUp, hsum, Nat.mul_add_div h, Nat.div_eq_of_lt hsmall, Nat.add_zero,
    Nat.mul_comm, Nat.mul_succ]
  omega

/-- Half the range of a word is room enough to round up. -/
theorem roundUp_lt {n unit : Nat} (hn : n < 2 ^ 63) (h : 0 < unit)
    (hunit : unit < 2 ^ 64) : roundUp n unit < 2 ^ 64 := by
  rcases Nat.eq_zero_or_pos (n % unit) with hmod | hmod
  · rw [roundUp_of_mod_eq_zero h hmod]
    omega
  · rw [roundUp_of_mod_ne_zero h (by omega)]
    rcases Nat.lt_or_ge n unit with hlt | hge
    · rw [Nat.mod_eq_of_lt hlt]
      omega
    · omega

end AssistantHub.BuildArithmetic
