import Mathlib.Data.List.Basic

namespace AssistantHub.FlatRows

def slice {α : Type*} (xs : List α) (a b : Nat) : List α :=
  (xs.drop a).take (b - a)

/-- Row `i` of a buffer that holds rows of `d` values one after the other. -/
def row {α : Type*} (d : Nat) (buffer : List α) (i : Nat) : List α :=
  slice buffer (i * d) ((i + 1) * d)

def setRow {α : Type*} (d : Nat) (buffer : List α) (i : Nat)
    (values : List α) : List α :=
  buffer.take (i * d) ++ values ++ buffer.drop ((i + 1) * d)

theorem row_eq_take_drop {α : Type*} (d : Nat) (buffer : List α) (i : Nat) :
    row d buffer i = (buffer.drop (i * d)).take d := by
  have hwidth : (i + 1) * d - i * d = d := by
    rw [Nat.add_mul, Nat.one_mul]
    omega
  rw [row, slice, hwidth]

theorem row_flatten {α : Type*} {d : Nat} {rows : List (List α)}
    (hrows : ∀ r ∈ rows, r.length = d) {i : Nat} (hi : i < rows.length) :
    row d rows.flatten i = rows[i] := by
  induction rows generalizing i with
  | nil => simp at hi
  | cons r rows ih =>
      have hr : r.length = d := hrows r List.mem_cons_self
      rw [row_eq_take_drop, List.flatten_cons]
      cases i with
      | zero => simp [← hr]
      | succ i =>
          have hdrop : (r ++ rows.flatten).drop ((i + 1) * d) =
              rows.flatten.drop (i * d) := by
            rw [Nat.add_mul, Nat.one_mul, Nat.add_comm, ← List.drop_drop, ← hr,
              List.drop_left]
          rw [hdrop, ← row_eq_take_drop]
          exact ih (fun s hs => hrows s (List.mem_cons_of_mem r hs))
            (Nat.lt_of_succ_lt_succ hi)

theorem setRow_flatten {α : Type*} {d : Nat} {rows : List (List α)}
    (hrows : ∀ r ∈ rows, r.length = d) {i : Nat} (hi : i < rows.length)
    (values : List α) :
    setRow d rows.flatten i values = (rows.set i values).flatten := by
  induction rows generalizing i with
  | nil => simp at hi
  | cons r rows ih =>
      have hr : r.length = d := hrows r List.mem_cons_self
      cases i with
      | zero => simp [setRow, ← hr]
      | succ i =>
          have hrest := ih (fun s hs => hrows s (List.mem_cons_of_mem r hs))
            (Nat.lt_of_succ_lt_succ hi)
          have hshift : ∀ n, (n + 1) * d = r.length + n * d := by
            intro n
            rw [Nat.add_mul, Nat.one_mul, hr, Nat.add_comm]
          have htake : (r ++ rows.flatten).take ((i + 1) * d) =
              r ++ rows.flatten.take (i * d) := by
            rw [hshift, List.take_length_add_append]
          have hdrop : (r ++ rows.flatten).drop ((i + 1 + 1) * d) =
              rows.flatten.drop ((i + 1) * d) := by
            rw [hshift, List.drop_length_add_append]
          rw [List.set_cons_succ, List.flatten_cons, List.flatten_cons, ← hrest,
            setRow, setRow, htake, hdrop]
          simp [List.append_assoc]

theorem flatten_map_row {α : Type*} (d : Nat) (buffer : List α) (n : Nat) :
    ((List.range n).map (row d buffer)).flatten = buffer.take (n * d) := by
  induction n with
  | zero => simp
  | succ n ih =>
      rw [List.range_succ, List.map_append, List.flatten_append, ih]
      simp only [List.map_cons, List.map_nil, List.flatten_cons,
        List.flatten_nil, List.append_nil]
      rw [row_eq_take_drop, Nat.add_mul, Nat.one_mul, List.take_add]

theorem length_row {α : Type*} {d n : Nat} {buffer : List α}
    (hbuffer : buffer.length = n * d) {i : Nat} (hi : i < n) :
    (row d buffer i).length = d := by
  rw [row_eq_take_drop, List.length_take, List.length_drop, hbuffer]
  have hle : (i + 1) * d ≤ n * d := Nat.mul_le_mul_right d hi
  rw [Nat.add_mul, Nat.one_mul] at hle
  omega

theorem eq_of_rows_eq {α : Type*} {d n : Nat} {xs ys : List α}
    (hxs : xs.length = n * d) (hys : ys.length = n * d)
    (h : ∀ i < n, row d xs i = row d ys i) : xs = ys := by
  have hrows : (List.range n).map (row d xs) = (List.range n).map (row d ys) :=
    List.map_congr_left fun i hi => h i (List.mem_range.mp hi)
  calc
    xs = xs.take (n * d) := by rw [← hxs, List.take_length]
    _ = ((List.range n).map (row d xs)).flatten := (flatten_map_row d xs n).symm
    _ = ((List.range n).map (row d ys)).flatten := by rw [hrows]
    _ = ys.take (n * d) := flatten_map_row d ys n
    _ = ys := by rw [← hys, List.take_length]

end AssistantHub.FlatRows
