import Mathlib.Data.List.Nodup
import Mathlib.Data.List.Dedup

namespace AssistantHub.KeyedTable

/-- Rows in an order of their own, no two of them with the same key. -/
structure Table {α κ : Type*} (key : α → κ) where
  rows : List α
  nodup : (rows.map key).Nodup

theorem Table.ext {α κ : Type*} {key : α → κ} {t u : Table key}
    (h : t.rows = u.rows) : t = u := by
  cases t
  cases u
  cases h
  rfl

def Table.empty {α κ : Type*} (key : α → κ) : Table key := ⟨[], by simp⟩

def Table.find {α κ : Type*} [DecidableEq κ] {key : α → κ}
    (t : Table key) (k : κ) : Option α :=
  t.rows.find? fun a => key a = k

def putRows {α κ : Type*} [DecidableEq κ] (key : α → κ) (a : α) :
    List α → List α
  | [] => [a]
  | b :: rows => if key b = key a then a :: rows else b :: putRows key a rows

theorem map_key_putRows {α κ : Type*} [DecidableEq κ] (key : α → κ) (a : α)
    (rows : List α) :
    (putRows key a rows).map key =
      if key a ∈ rows.map key then rows.map key
      else rows.map key ++ [key a] := by
  induction rows with
  | nil => simp [putRows]
  | cons b rows ih =>
      by_cases hb : key b = key a
      · simp [putRows, hb]
      · have hne : key a ≠ key b := fun h => hb h.symm
        simp only [putRows, if_neg hb, List.map_cons, ih, List.mem_cons, hne,
          false_or]
        split <;> simp

theorem nodup_putRows {α κ : Type*} [DecidableEq κ] {key : α → κ} {a : α}
    {rows : List α} (h : (rows.map key).Nodup) :
    ((putRows key a rows).map key).Nodup := by
  rw [map_key_putRows]
  split
  · exact h
  · rename_i hnew
    exact List.Nodup.append h (List.nodup_singleton _)
      (List.disjoint_singleton.mpr hnew)

theorem putRows_of_not_mem {α κ : Type*} [DecidableEq κ] {key : α → κ} {a : α}
    {rows : List α} (h : key a ∉ rows.map key) :
    putRows key a rows = rows ++ [a] := by
  induction rows with
  | nil => rfl
  | cons b rows ih =>
      simp only [List.map_cons, List.mem_cons, not_or] at h
      rw [putRows, if_neg fun hb => h.1 hb.symm, ih h.2, List.cons_append]

theorem putRows_of_key_eq {α κ : Type*} [DecidableEq κ] {key : α → κ} {a : α}
    {rows : List α} (hnodup : (rows.map key).Nodup) {i : Nat}
    (hi : (rows.map key)[i]? = some (key a)) :
    putRows key a rows = rows.set i a := by
  induction rows generalizing i with
  | nil => simp at hi
  | cons b rows ih =>
      rw [List.map_cons, List.nodup_cons] at hnodup
      cases i with
      | zero =>
          have hb : key b = key a := by simpa using hi
          rw [putRows, if_pos hb, List.set_cons_zero]
      | succ i =>
          have hrest : (rows.map key)[i]? = some (key a) := by simpa using hi
          have hb : key b ≠ key a := by
            intro hb
            exact hnodup.1 (hb ▸ List.mem_of_getElem? hrest)
          rw [putRows, if_neg hb, List.set_cons_succ, ih hnodup.2 hrest]

def Table.put {α κ : Type*} [DecidableEq κ] {key : α → κ}
    (t : Table key) (a : α) : Table key :=
  ⟨putRows key a t.rows, nodup_putRows t.nodup⟩

def Table.erase {α κ : Type*} [DecidableEq κ] {key : α → κ}
    (t : Table key) (ks : List κ) : Table key :=
  ⟨t.rows.filter fun a => key a ∉ ks,
    (List.filter_sublist.map key).nodup t.nodup⟩

def Table.putAll {α κ : Type*} [DecidableEq κ] {key : α → κ}
    (t : Table key) (rows : List α) : Table key :=
  rows.foldl Table.put t

theorem find?_key_iff {α κ : Type*} [DecidableEq κ] {key : α → κ}
    {rows : List α} (h : (rows.map key).Nodup) (k : κ) (a : α) :
    rows.find? (fun b => key b = k) = some a ↔ a ∈ rows ∧ key a = k := by
  constructor
  · intro hfind
    exact ⟨List.mem_of_find?_eq_some hfind,
      by simpa using List.find?_some hfind⟩
  · rintro ⟨hmem, hkey⟩
    cases hfind : rows.find? (fun b => key b = k) with
    | none =>
        have := List.find?_eq_none.mp hfind a hmem
        simp [hkey] at this
    | some b =>
        have hb : key b = k := by simpa using List.find?_some hfind
        rw [List.inj_on_of_nodup_map h (List.mem_of_find?_eq_some hfind) hmem
          (hb.trans hkey.symm)]

theorem Table.find_eq_some_iff {α κ : Type*} [DecidableEq κ] {key : α → κ}
    (t : Table key) (k : κ) (a : α) :
    t.find k = some a ↔ a ∈ t.rows ∧ key a = k :=
  find?_key_iff t.nodup k a

theorem Table.find_eq_none_iff {α κ : Type*} [DecidableEq κ] {key : α → κ}
    (t : Table key) (k : κ) : t.find k = none ↔ k ∉ t.rows.map key := by
  simp [Table.find, List.find?_eq_none]

theorem find?_putRows {α κ : Type*} [DecidableEq κ] (key : α → κ) (a : α)
    (rows : List α) (k : κ) :
    (putRows key a rows).find? (fun b => key b = k) =
      if key a = k then some a else rows.find? fun b => key b = k := by
  induction rows with
  | nil => by_cases h : key a = k <;> simp [putRows, h]
  | cons b rows ih =>
      by_cases hb : key b = key a
      · by_cases ha : key a = k
        · simp [putRows, hb, ha]
        · simp [putRows, hb, ha]
      · rw [putRows, if_neg hb]
        by_cases hbk : key b = k
        · have ha : key a ≠ k := fun h => hb (hbk.trans h.symm)
          simp [hbk, ha]
        · simpa [List.find?_cons, hbk] using ih

theorem Table.find_put {α κ : Type*} [DecidableEq κ] {key : α → κ}
    (t : Table key) (a : α) (k : κ) :
    (t.put a).find k = if key a = k then some a else t.find k :=
  find?_putRows key a t.rows k

theorem Table.find_erase {α κ : Type*} [DecidableEq κ] {key : α → κ}
    (t : Table key) (ks : List κ) (k : κ) :
    (t.erase ks).find k = if k ∈ ks then none else t.find k := by
  simp only [Table.erase, Table.find, List.find?_filter]
  by_cases hk : k ∈ ks
  · rw [if_pos hk, List.find?_eq_none]
    intro a _
    simp only [decide_eq_true_eq, not_and]
    rintro hmem rfl
    exact hmem hk
  · rw [if_neg hk]
    congr 1
    funext a
    by_cases ha : key a = k <;> simp [ha, hk]

theorem Table.find_putAll_of_not_mem {α κ : Type*} [DecidableEq κ]
    {key : α → κ} (t : Table key) (rows : List α) (k : κ)
    (hk : k ∉ rows.map key) : (t.putAll rows).find k = t.find k := by
  induction rows generalizing t with
  | nil => rfl
  | cons a rows ih =>
      simp only [List.map_cons, List.mem_cons, not_or] at hk
      change ((t.put a).putAll rows).find k = _
      rw [ih _ hk.2, Table.find_put, if_neg fun h => hk.1 h.symm]

/-- When rows are added in turn, each key ends with one of the added rows. -/
theorem Table.find_putAll_of_mem {α κ : Type*} [DecidableEq κ] {key : α → κ}
    (t : Table key) (rows : List α) (k : κ) (hk : k ∈ rows.map key) :
    ∃ a ∈ rows, key a = k ∧ (t.putAll rows).find k = some a := by
  induction rows generalizing t with
  | nil => simp at hk
  | cons a rows ih =>
      change ∃ b ∈ a :: rows, key b = k ∧
        ((t.put a).putAll rows).find k = some b
      by_cases hrest : k ∈ rows.map key
      · obtain ⟨b, hmem, hkey, hfind⟩ := ih (t.put a) hrest
        exact ⟨b, List.mem_cons_of_mem a hmem, hkey, hfind⟩
      · have ha : key a = k := by
          rcases List.mem_cons.mp hk with h | h
          · exact h.symm
          · exact absurd h hrest
        refine ⟨a, List.mem_cons_self, ha, ?_⟩
        rw [Table.find_putAll_of_not_mem _ _ _ hrest, Table.find_put,
          if_pos ha]

/-- The number of rows that go away is the number of distinct listed keys
that were there. -/
theorem Table.length_erase {α κ : Type*} [DecidableEq κ] {key : α → κ}
    (t : Table key) (ks : List κ) :
    t.rows.length - (t.erase ks).rows.length =
      (ks.dedup.filter fun k => (t.find k).isSome).length := by
  have hsplit : (t.rows.filter fun a => key a ∉ ks).length +
      (t.rows.filter fun a => key a ∈ ks).length = t.rows.length := by
    have := List.length_eq_length_filter_add (l := t.rows)
      (fun a => decide (key a ∉ ks))
    simpa using this.symm
  have hperm : ((t.rows.filter fun a => key a ∈ ks).map key).Perm
      (ks.dedup.filter fun k => (t.find k).isSome) := by
    rw [List.perm_ext_iff_of_nodup
      ((List.filter_sublist.map key).nodup t.nodup)
      (List.nodup_dedup ks |>.filter _)]
    intro k
    have hsome : (t.find k).isSome = true ↔ k ∈ t.rows.map key := by
      rw [← not_iff_not, ← t.find_eq_none_iff]
      simp
    rw [List.mem_filter, List.mem_dedup, hsome]
    simp only [List.mem_map, List.mem_filter, decide_eq_true_eq]
    constructor
    · rintro ⟨a, ⟨hmem, hks⟩, rfl⟩
      exact ⟨hks, a, hmem, rfl⟩
    · rintro ⟨hks, a, hmem, rfl⟩
      exact ⟨a, ⟨hmem, hks⟩, rfl⟩
  have hlength := hperm.length_eq
  rw [List.length_map] at hlength
  change t.rows.length - (t.rows.filter fun a => key a ∉ ks).length = _
  omega

end AssistantHub.KeyedTable
