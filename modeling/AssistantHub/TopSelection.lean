import Mathlib.Data.List.Perm.Basic
import Mathlib.Order.Lattice

namespace AssistantHub.TopSelection

variable {α : Type*} {cmp : α → α → Ordering}

/-- A partial selection on lists: the element at `k` is the one that a sort
would put there, what stands before it is not greater, what stands behind it is
not less. The order on either side is left open. -/
structure Selection (cmp : α → α → Ordering) where
  run : Nat → List α → List α
  perm : ∀ k l, (run k l).Perm l
  before : ∀ k l pivot, (run k l)[k]? = some pivot →
    ∀ x ∈ (run k l).take k, (cmp x pivot).isLE = true
  behind : ∀ k l pivot, (run k l)[k]? = some pivot →
    ∀ x ∈ (run k l).drop (k + 1), (cmp pivot x).isLE = true

theorem pairwise_mergeSort_cmp (cmp : α → α → Ordering) [Std.TransCmp cmp]
    (l : List α) :
    (l.mergeSort fun x y => (cmp x y).isLE).Pairwise
      fun x y => (cmp x y).isLE = true := by
  refine List.pairwise_mergeSort ?_ ?_ l
  · intro x y z hxy hyz
    exact Std.TransCmp.isLE_trans hxy hyz
  · intro x y
    rw [Bool.or_eq_true]
    rcases hxy : cmp x y with _ | _ | _
    · exact Or.inl rfl
    · exact Or.inl rfl
    · refine Or.inr ?_
      rw [Std.OrientedCmp.lt_of_gt hxy]
      rfl

/-- Sort the whole list: the simplest selection. -/
def sorting (cmp : α → α → Ordering) [Std.TransCmp cmp] : Selection cmp where
  run _ l := l.mergeSort fun x y => (cmp x y).isLE
  perm _ l := List.mergeSort_perm l _
  before k l pivot hpivot x hx := by
    have hsorted := pairwise_mergeSort_cmp cmp l
    obtain ⟨hk, rfl⟩ := List.getElem?_eq_some_iff.mp hpivot
    obtain ⟨i, hi, rfl⟩ := List.mem_take_iff_getElem.mp hx
    exact List.pairwise_iff_getElem.mp hsorted i k _ hk
      (Nat.lt_of_lt_of_le hi (Nat.min_le_left _ _))
  behind k l pivot hpivot x hx := by
    have hsorted := pairwise_mergeSort_cmp cmp l
    obtain ⟨hk, rfl⟩ := List.getElem?_eq_some_iff.mp hpivot
    obtain ⟨i, hi, rfl⟩ := List.mem_drop_iff_getElem.mp hx
    exact List.pairwise_iff_getElem.mp hsorted k _ hk _ (by omega)

/-- The first `limit` elements of the sorted list, by a selection and a sort of
what it put in front. -/
def top (sel : Selection cmp) (limit : Nat) (l : List α) : List α :=
  let front :=
    if limit < l.length then (sel.run (limit - 1) l).take limit else l
  front.mergeSort fun x y => (cmp x y).isLE

/-- The elements in front of a selection come before all others. -/
theorem Selection.splits [Std.TransCmp cmp] (sel : Selection cmp) {k : Nat}
    {l : List α} (hk : k < l.length) {x y : α}
    (hx : x ∈ (sel.run k l).take (k + 1)) (hy : y ∈ (sel.run k l).drop (k + 1)) :
    (cmp x y).isLE = true := by
  have hlength : k < (sel.run k l).length := by
    rw [(sel.perm k l).length_eq]
    exact hk
  have hpivot : (sel.run k l)[k]? = some (sel.run k l)[k] :=
    List.getElem?_eq_getElem hlength
  have hle := sel.behind k l _ hpivot y hy
  rw [List.take_add_one, hpivot, List.mem_append] at hx
  rcases hx with hx | hx
  · exact Std.TransCmp.isLE_trans (sel.before k l _ hpivot x hx) hle
  · rw [Option.toList_some, List.mem_singleton] at hx
    rw [hx]
    exact hle

/-- What a selection of the first `limit` elements leaves out comes behind
them. -/
theorem top_spec [Std.TransCmp cmp] (sel : Selection cmp) {limit : Nat}
    (hlimit : 0 < limit) (l : List α) :
    ∃ rest, (top sel limit l ++ rest).Perm l ∧
      ∀ x ∈ top sel limit l, ∀ y ∈ rest, (cmp x y).isLE = true := by
  rw [top]
  split
  · rename_i hlong
    obtain ⟨k, rfl⟩ := Nat.exists_eq_add_one.mpr hlimit
    refine ⟨(sel.run k l).drop (k + 1), ?_, ?_⟩
    · refine ((List.mergeSort_perm _ _).append_right _).trans ?_
      rw [Nat.add_sub_cancel, List.take_append_drop]
      exact sel.perm k l
    · intro x hx y hy
      rw [List.mem_mergeSort, Nat.add_sub_cancel] at hx
      exact sel.splits (Nat.lt_of_succ_lt hlong) hx hy
  · refine ⟨[], ?_, fun x _ y hy => absurd hy List.not_mem_nil⟩
    rw [List.append_nil]
    exact List.mergeSort_perm l _

theorem pairwise_top [Std.TransCmp cmp] (sel : Selection cmp) (limit : Nat)
    (l : List α) :
    (top sel limit l).Pairwise fun x y => (cmp x y).isLE = true :=
  pairwise_mergeSort_cmp cmp _

/-- Sort, and take the last element. -/
def greatest (cmp : α → α → Ordering) (l : List α) : Option α :=
  (l.mergeSort fun x y => (cmp x y).isLE).getLast?

theorem greatest_eq_none_iff {l : List α} : greatest cmp l = none ↔ l = [] := by
  rw [greatest, List.getLast?_eq_none_iff, ← List.length_eq_zero_iff,
    List.length_mergeSort, List.length_eq_zero_iff]

theorem mem_and_le_of_greatest [Std.TransCmp cmp] {l : List α} {x : α}
    (h : greatest cmp l = some x) : x ∈ l ∧ ∀ y ∈ l, (cmp y x).isLE = true := by
  obtain ⟨front, hfront⟩ := List.getLast?_eq_some_iff.mp h
  have hsorted := pairwise_mergeSort_cmp cmp l
  have hmem (y : α) : y ∈ l ↔ y ∈ front ++ [x] := by
    rw [← hfront, List.mem_mergeSort]
  rw [hfront, List.pairwise_append] at hsorted
  refine ⟨(hmem x).mpr (List.mem_append_right _ (List.mem_singleton_self x)), ?_⟩
  intro y hy
  rcases List.mem_append.mp ((hmem y).mp hy) with hy | hy
  · exact hsorted.2.2 y hy x (List.mem_singleton_self x)
  · rw [List.mem_singleton.mp hy]
    exact Std.ReflCmp.isLE_rfl

theorem greatest_eq_some_iff [Std.TransCmp cmp] [Std.LawfulEqCmp cmp]
    {l : List α} {x : α} :
    greatest cmp l = some x ↔ x ∈ l ∧ ∀ y ∈ l, (cmp y x).isLE = true := by
  refine ⟨mem_and_le_of_greatest, ?_⟩
  rintro ⟨hx, hle⟩
  rcases hlast : greatest cmp l with _ | z
  · rw [greatest_eq_none_iff.mp hlast] at hx
    exact absurd hx List.not_mem_nil
  · obtain ⟨hz, hgreat⟩ := mem_and_le_of_greatest hlast
    have heq := Std.OrientedCmp.isLE_antisymm (hgreat x hx) (hle z hz)
    rw [Std.LawfulEqCmp.eq_of_compare heq]

theorem length_top (sel : Selection cmp) (limit : Nat) (l : List α) :
    (top sel limit l).length = min limit l.length := by
  rw [top, List.length_mergeSort]
  split
  · rw [List.length_take, (sel.perm _ l).length_eq]
  · rename_i hshort
    exact (Nat.min_eq_right (Nat.not_lt.mp hshort)).symm

section Keys

variable {β : Type*} [LinearOrder β]

/-- Best first. -/
def descending (l : List β) : List β :=
  l.mergeSort fun x y => decide (y ≤ x)

theorem descending_perm (l : List β) : (descending l).Perm l :=
  List.mergeSort_perm l _

theorem descending_eq_nil_iff {l : List β} : descending l = [] ↔ l = [] := by
  rw [← List.length_eq_zero_iff, (descending_perm l).length_eq,
    List.length_eq_zero_iff]

theorem pairwise_descending (l : List β) :
    (descending l).Pairwise fun x y => y ≤ x := by
  have hsorted : (descending l).Pairwise fun x y => decide (y ≤ x) = true := by
    refine List.pairwise_mergeSort ?_ ?_ l
    · intro x y z hxy hyz
      rw [decide_eq_true_iff] at hxy hyz ⊢
      exact le_trans hyz hxy
    · intro x y
      rw [Bool.or_eq_true, decide_eq_true_iff, decide_eq_true_iff]
      exact le_total y x
  exact hsorted.imp of_decide_eq_true

theorem eq_of_perm_descending {l m : List β} (hperm : l.Perm m)
    (hl : l.Pairwise fun x y => y ≤ x) (hm : m.Pairwise fun x y => y ≤ x) :
    l = m :=
  hperm.eq_of_pairwise (fun _ _ _ _ hxy hyx => le_antisymm hyx hxy) hl hm

/-- The keys of the first elements are the greatest keys, whatever a selection
does with ties. -/
theorem map_front {key : α → β} {front rest l : List α}
    (hperm : (front ++ rest).Perm l)
    (hfront : front.Pairwise fun x y => key y ≤ key x)
    (hrest : ∀ x ∈ front, ∀ y ∈ rest, key y ≤ key x) :
    front.map key = (descending (l.map key)).take front.length := by
  have hfull : descending (l.map key) =
      front.map key ++ descending (rest.map key) := by
    refine eq_of_perm_descending ?_ (pairwise_descending _) ?_
    · refine (descending_perm _).trans ((hperm.map key).symm.trans ?_)
      rw [List.map_append]
      exact (descending_perm _).symm.append_left _
    · rw [List.pairwise_append]
      refine ⟨List.pairwise_map.mpr hfront, pairwise_descending _, ?_⟩
      intro x hx y hy
      obtain ⟨a, ha, rfl⟩ := List.mem_map.mp hx
      obtain ⟨b, hb, rfl⟩ := List.mem_map.mp ((descending_perm _).mem_iff.mp hy)
      exact hrest a ha b hb
  rw [hfull, List.take_left' (List.length_map key)]

end Keys

end AssistantHub.TopSelection
