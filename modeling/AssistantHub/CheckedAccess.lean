import AssistantHub.BuildArithmetic
import Mathlib.Data.List.Basic

namespace AssistantHub.CheckedAccess

open AssistantHub.BuildArithmetic

variable {α : Type}

/-- `xs[i]`, which panics out of range. -/
def index (xs : List α) (i : Nat) : Except Failure α :=
  match xs[i]? with
  | some x => .ok x
  | none => .error .panic

/-- `xs[start..stop]`, which panics out of range. -/
def range (xs : List α) (start stop : Nat) : Except Failure (List α) :=
  if start ≤ stop ∧ stop ≤ xs.length then .ok ((xs.drop start).take (stop - start))
  else .error .panic

/-- The result of an operator on unsigned words of `bits` bits. -/
def narrow (build : Build) (bits n : Nat) : Except Failure Nat :=
  if n < 2 ^ bits then .ok n
  else
    match build with
    | .debug => .error .panic
    | .release => .ok (n % 2 ^ bits)

theorem index_of_lt {xs : List α} {i : Nat} (h : i < xs.length) :
    index xs i = .ok xs[i] := by
  rw [index, List.getElem?_eq_getElem h]

theorem range_of_le {xs : List α} {start stop : Nat} (h : start ≤ stop)
    (hstop : stop ≤ xs.length) :
    range xs start stop = .ok ((xs.drop start).take (stop - start)) := by
  rw [range, if_pos ⟨h, hstop⟩]

theorem narrow_of_lt {bits n : Nat} (h : n < 2 ^ bits) (build : Build) :
    narrow build bits n = .ok n := by
  rw [narrow.eq_def, if_pos h]

/-- A map over a list whose steps all succeed. -/
theorem mapM_of_ok {β ε : Type} {f : α → β} {g : α → Except ε β} {xs : List α}
    (h : ∀ x ∈ xs, g x = .ok (f x)) : xs.mapM g = .ok (xs.map f) := by
  induction xs with
  | nil => rfl
  | cons x xs ih =>
      rw [List.forall_mem_cons] at h
      rw [List.mapM_cons, h.1, ih h.2]
      rfl

end AssistantHub.CheckedAccess
