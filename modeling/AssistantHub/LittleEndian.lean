import Mathlib.Algebra.Group.Int.Defs
import Mathlib.Algebra.Group.Nat.Defs
import Mathlib.Data.List.Basic

namespace AssistantHub.LittleEndian

abbrev Bytes := List UInt8

/-- The number that bytes stand for, the low one first. -/
def leNat : Bytes → Nat
  | [] => 0
  | b :: bytes => b.toNat + 2 ^ 8 * leNat bytes

def slice (start count : Nat) (bytes : Bytes) : Bytes := (bytes.drop start).take count

theorem leNat_lt (bytes : Bytes) : leNat bytes < 2 ^ (8 * bytes.length) := by
  induction bytes with
  | nil => simp [leNat]
  | cons b bytes ih =>
      have hb := b.toNat_lt
      rw [leNat, List.length_cons, Nat.mul_succ, Nat.pow_add]
      omega

/-- The bytes as a signed number. -/
def leInt (bytes : Bytes) : Int :=
  if 2 * leNat bytes < 2 ^ (8 * bytes.length) then leNat bytes
  else leNat bytes - 2 ^ (8 * bytes.length)

/-- The low `count` bytes of a number, `to_le_bytes`. -/
def leBytes : Nat → Nat → Bytes
  | 0, _ => []
  | count + 1, n => UInt8.ofNat n :: leBytes count (n / 2 ^ 8)

@[simp] theorem length_leBytes (count n : Nat) : (leBytes count n).length = count := by
  induction count generalizing n with
  | zero => rfl
  | succ count ih => rw [leBytes, List.length_cons, ih]

theorem leNat_leBytes {count n : Nat} (h : n < 2 ^ (8 * count)) :
    leNat (leBytes count n) = n := by
  induction count generalizing n with
  | zero =>
      rw [Nat.mul_zero, Nat.pow_zero, Nat.lt_one_iff] at h
      rw [h]
      rfl
  | succ count ih =>
      rw [Nat.mul_succ, Nat.pow_add, Nat.mul_comm] at h
      rw [leBytes, leNat, ih (Nat.div_lt_of_lt_mul h), UInt8.toNat_ofNat',
        Nat.mod_add_div]

theorem leBytes_leNat (bytes : Bytes) : leBytes bytes.length (leNat bytes) = bytes := by
  induction bytes with
  | nil => rfl
  | cons b bytes ih =>
      have hlow : (b.toNat + 2 ^ 8 * leNat bytes) / 2 ^ 8 = leNat bytes := by
        have hb := b.toNat_lt
        omega
      have hb : UInt8.ofNat (b.toNat + 2 ^ 8 * leNat bytes) = b := by
        apply UInt8.toNat_inj.mp
        have hlt := b.toNat_lt
        rw [UInt8.toNat_ofNat']
        omega
      rw [List.length_cons, leBytes, leNat, hlow, hb, ih]

end AssistantHub.LittleEndian
