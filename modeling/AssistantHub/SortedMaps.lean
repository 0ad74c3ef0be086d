import Mathlib.Data.List.Sort

namespace AssistantHub.SortedMaps

variable {κ β : Type*} [LinearOrder κ]

def Sorted (entries : List (κ × β)) : Prop :=
  entries.Pairwise fun p q => p.1 < q.1

def insertEntry (k : κ) (b : β) : List (κ × β) → List (κ × β)
  | [] => [(k, b)]
  | p :: entries =>
      if k < p.1 then (k, b) :: p :: entries
      else if k = p.1 then (k, b) :: entries
      else p :: insertEntry k b entries

theorem mem_of_mem_insertEntry {k : κ} {b : β} {entries : List (κ × β)} {p : κ × β}
    (h : p ∈ insertEntry k b entries) : p = (k, b) ∨ p ∈ entries := by
  induction entries with
  | nil => simpa [insertEntry] using h
  | cons q entries ih =>
      rw [insertEntry] at h
      split at h
      · exact List.mem_cons.mp h
      · split at h
        · rcases List.mem_cons.mp h with rfl | h
          · exact Or.inl rfl
          · exact Or.inr (List.mem_cons_of_mem q h)
        · rcases List.mem_cons.mp h with rfl | h
          · exact Or.inr List.mem_cons_self
          · exact (ih h).imp_right (List.mem_cons_of_mem q)

theorem sorted_insertEntry (k : κ) (b : β) {entries : List (κ × β)}
    (h : Sorted entries) : Sorted (insertEntry k b entries) := by
  induction entries with
  | nil => exact List.pairwise_singleton _ _
  | cons p entries ih =>
      obtain ⟨hp, hentries⟩ := List.pairwise_cons.mp h
      rw [insertEntry]
      split
      · rename_i hlt
        refine List.pairwise_cons.mpr ⟨?_, h⟩
        intro q hq
        rcases List.mem_cons.mp hq with rfl | hq
        · exact hlt
        · exact hlt.trans (hp q hq)
      · split
        · rename_i heq
          subst heq
          exact List.pairwise_cons.mpr ⟨hp, hentries⟩
        · rename_i hle hne
          have hgt : p.1 < k := lt_of_le_of_ne (not_lt.mp hle) (Ne.symm hne)
          refine List.pairwise_cons.mpr ⟨?_, ih hentries⟩
          intro q hq
          rcases mem_of_mem_insertEntry hq with rfl | hq
          · exact hgt
          · exact hp q hq

theorem lookup_insertEntry (k : κ) (b : β) (entries : List (κ × β)) (n : κ) :
    (insertEntry k b entries).lookup n =
      if n = k then some b else entries.lookup n := by
  induction entries with
  | nil =>
      rw [insertEntry, List.lookup_cons]
      split <;> simp_all
  | cons p entries ih =>
      obtain ⟨name, value⟩ := p
      rw [insertEntry]
      split
      · rw [List.lookup_cons]
        split <;> simp_all
      · split
        · rename_i heq
          simp only at heq
          subst heq
          rw [List.lookup_cons, List.lookup_cons]
          split <;> simp_all
        · rename_i hne
          rw [List.lookup_cons, List.lookup_cons, ih]
          split
          · rename_i heq
            have hname : n = name := by simpa using heq
            subst hname
            rw [if_neg fun h => hne h.symm]
          · rfl

/-- A map that keeps its entries in the order of their keys. -/
structure SortedMap (κ β : Type*) [LinearOrder κ] where
  entries : List (κ × β)
  sorted : Sorted entries

namespace SortedMap

def empty : SortedMap κ β := ⟨[], List.Pairwise.nil⟩

def lookup (m : SortedMap κ β) (k : κ) : Option β := m.entries.lookup k

def insert (m : SortedMap κ β) (k : κ) (b : β) : SortedMap κ β :=
  ⟨insertEntry k b m.entries, sorted_insertEntry k b m.sorted⟩

def extend (m : SortedMap κ β) (entries : List (κ × β)) : SortedMap κ β :=
  entries.foldl (fun m p => m.insert p.1 p.2) m

def ofList (entries : List (κ × β)) : SortedMap κ β := empty.extend entries

@[simp] theorem lookup_empty (k : κ) : (empty : SortedMap κ β).lookup k = none := rfl

@[simp] theorem lookup_insert (m : SortedMap κ β) (k : κ) (b : β) (n : κ) :
    (m.insert k b).lookup n = if n = k then some b else m.lookup n :=
  lookup_insertEntry k b m.entries n

theorem mem_entries_iff (m : SortedMap κ β) (k : κ) (b : β) :
    (k, b) ∈ m.entries ↔ m.lookup k = some b := by
  obtain ⟨entries, hsorted⟩ := m
  change (k, b) ∈ entries ↔ entries.lookup k = some b
  induction entries with
  | nil => simp
  | cons p entries ih =>
      obtain ⟨name, value⟩ := p
      obtain ⟨hp, hentries⟩ := List.pairwise_cons.mp hsorted
      rw [List.mem_cons, List.lookup_cons, ih hentries]
      split
      · rename_i heq
        have hname : k = name := by simpa using heq
        subst hname
        have hnone : entries.lookup k ≠ some b := by
          intro hlookup
          exact absurd (hp _ ((ih hentries).mpr hlookup)) (lt_irrefl k)
        simp [hnone, eq_comm]
      · rename_i hne
        have hname : k ≠ name := by simpa using hne
        simp [hname]

/-- Two maps are the same when they say the same of every key. -/
theorem ext {m m' : SortedMap κ β} (h : ∀ k, m.lookup k = m'.lookup k) :
    m = m' := by
  have hentries : m.entries = m'.entries := by
    apply List.Perm.eq_of_pairwise _ m.sorted m'.sorted
    · rw [List.perm_ext_iff_of_nodup (m.sorted.imp fun hlt heq => by
        rw [heq] at hlt; exact lt_irrefl _ hlt) (m'.sorted.imp fun hlt heq => by
        rw [heq] at hlt; exact lt_irrefl _ hlt)]
      rintro ⟨k, b⟩
      rw [mem_entries_iff, mem_entries_iff, h]
    · intro p q _ _ hlt hgt
      exact absurd (hlt.trans hgt) (lt_irrefl _)
  obtain ⟨entries, hsorted⟩ := m
  cases m'
  simp only at hentries
  subst hentries
  rfl

theorem lookup_extend_of_sorted (m : SortedMap κ β) {entries : List (κ × β)}
    (h : Sorted entries) (k : κ) :
    (m.extend entries).lookup k = (entries.lookup k).or (m.lookup k) := by
  induction entries generalizing m with
  | nil => rfl
  | cons p entries ih =>
      obtain ⟨hp, hentries⟩ := List.pairwise_cons.mp h
      change ((m.insert p.1 p.2).extend entries).lookup k = _
      rw [ih _ hentries, lookup_insert, List.lookup_cons]
      split
      · rename_i heq
        subst heq
        have hnone : entries.lookup p.1 = none := by
          rw [List.lookup_eq_none_iff]
          intro q hq
          simpa using (hp q hq).ne
        simp [hnone]
      · rename_i hne
        have hbeq : (k == p.1) = false := by simpa using hne
        rw [hbeq]

theorem lookup_extend (m m' : SortedMap κ β) (k : κ) :
    (m.extend m'.entries).lookup k = (m'.lookup k).or (m.lookup k) :=
  lookup_extend_of_sorted m m'.sorted k

@[simp] theorem ofList_entries (m : SortedMap κ β) : ofList m.entries = m := by
  apply ext
  intro k
  rw [ofList, lookup_extend, lookup_empty, Option.or_none]

end SortedMap

end AssistantHub.SortedMaps
