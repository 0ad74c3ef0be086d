import AssistantHub.KeyedTable
import Mathlib.Logic.Function.Basic

namespace AssistantHub.InodeFiles

open AssistantHub.KeyedTable

section Names

variable {κ : Type*} [DecidableEq κ]

/-- A directory: each name with the number of its file. -/
abbrev Names (κ : Type*) := Table (Prod.fst : κ × Nat → κ)

def lookup (dir : Names κ) (name : κ) : Option Nat :=
  (dir.find name).map Prod.snd

theorem lookup_put (dir : Names κ) (name : κ) (i : Nat) (n : κ) :
    lookup (dir.put (name, i)) n = if name = n then some i else lookup dir n := by
  rw [lookup, Table.find_put]
  split <;> rfl

theorem lookup_erase (dir : Names κ) (name n : κ) :
    lookup (dir.erase [name]) n = if n = name then none else lookup dir n := by
  rw [lookup, Table.find_erase]
  simp only [List.mem_singleton]
  split <;> rfl

end Names

/-- Files that keep their contents under a new name, and under an open handle
when they have none. No file has two names. -/
structure Disk (κ β : Type*) [DecidableEq κ] where
  dir : Names κ
  contents : Nat → List β
  fresh : Nat
  lt_fresh : ∀ {name i}, lookup dir name = some i → i < fresh
  name_inj : ∀ {name name' i}, lookup dir name = some i →
    lookup dir name' = some i → name = name'

section Operations

variable {κ β : Type*} [DecidableEq κ] (d : Disk κ β)

def Disk.empty (κ β : Type*) [DecidableEq κ] : Disk κ β where
  dir := Table.empty _
  contents _ := []
  fresh := 0
  lt_fresh h := nomatch h
  name_inj h := nomatch h

def Disk.inode (name : κ) : Option Nat := lookup d.dir name

def Disk.read (name : κ) : Option (List β) := (d.inode name).map d.contents

def Disk.names : List κ := d.dir.rows.map Prod.fst

/-- Opens a file for writing: an existing one is emptied. -/
def Disk.truncate (name : κ) : Disk κ β × Nat :=
  match d.inode name with
  | some i => ({ d with contents := Function.update d.contents i [] }, i)
  | none =>
      ({ dir := d.dir.put (name, d.fresh)
         contents := Function.update d.contents d.fresh []
         fresh := d.fresh + 1
         lt_fresh := by
           intro n i h
           rw [lookup_put] at h
           split at h
           · exact Option.some.inj h ▸ Nat.lt_succ_self _
           · exact Nat.lt_succ_of_lt (d.lt_fresh h)
         name_inj := by
           intro n n' i h h'
           rw [lookup_put] at h h'
           split at h <;> split at h'
           · rename_i hn hn'
             exact hn.symm.trans hn'
           · obtain rfl := Option.some.inj h
             exact absurd (d.lt_fresh h') (Nat.lt_irrefl _)
           · obtain rfl := Option.some.inj h'
             exact absurd (d.lt_fresh h) (Nat.lt_irrefl _)
           · exact d.name_inj h h' }, d.fresh)

def Disk.append (i : Nat) (chunk : List β) : Disk κ β :=
  { d with contents := Function.update d.contents i (d.contents i ++ chunk) }

def Disk.remove (name : κ) : Disk κ β :=
  { d with
    dir := d.dir.erase [name]
    lt_fresh := by
      intro n i h
      rw [lookup_erase] at h
      split at h
      · cases h
      · exact d.lt_fresh h
    name_inj := by
      intro n n' i h h'
      rw [lookup_erase] at h h'
      split at h <;> split at h'
      · cases h
      · cases h
      · cases h'
      · exact d.name_inj h h' }

/-- Renames a file over another one. None if there is no such file. -/
def Disk.rename (source target : κ) : Option (Disk κ β) :=
  match h : d.inode source with
  | none => none
  | some i =>
      some
        { d with
          dir := (d.dir.erase [source]).put (target, i)
          lt_fresh := by
            intro n j hn
            rw [lookup_put, lookup_erase] at hn
            split at hn
            · exact Option.some.inj hn ▸ d.lt_fresh h
            · split at hn
              · cases hn
              · exact d.lt_fresh hn
          name_inj := by
            intro n n' j hn hn'
            rw [lookup_put, lookup_erase] at hn hn'
            split at hn <;> split at hn'
            · rename_i ht ht'
              exact ht.symm.trans ht'
            · obtain rfl := Option.some.inj hn
              split at hn'
              · cases hn'
              · rename_i hne
                exact absurd (d.name_inj hn' h) hne
            · obtain rfl := Option.some.inj hn'
              split at hn
              · cases hn
              · rename_i hne
                exact absurd (d.name_inj hn h) hne
            · split at hn
              · cases hn
              · split at hn'
                · cases hn'
                · exact d.name_inj hn hn' }

end Operations

section Laws

variable {κ β : Type*} [DecidableEq κ] {d : Disk κ β}

theorem inode_truncate (name n : κ) :
    (d.truncate name).1.inode n =
      if name = n then some (d.truncate name).2 else d.inode n := by
  rw [Disk.truncate]
  cases hname : d.inode name with
  | some i =>
      change d.inode n = if name = n then some i else d.inode n
      split
      · rename_i heq
        exact heq ▸ hname
      · rfl
  | none => exact lookup_put d.dir name d.fresh n

theorem contents_truncate (name : κ) (i : Nat) :
    (d.truncate name).1.contents i =
      if i = (d.truncate name).2 then [] else d.contents i := by
  rw [Disk.truncate]
  cases d.inode name with
  | some j => exact Function.update_apply _ _ _ _
  | none => exact Function.update_apply _ _ _ _

theorem truncate_lt_fresh (name : κ) :
    (d.truncate name).2 < (d.truncate name).1.fresh := by
  have h := inode_truncate (d := d) name name
  rw [if_pos rfl] at h
  exact (d.truncate name).1.lt_fresh h

theorem inode_ne_truncate {name n : κ} (hne : name ≠ n) :
    d.inode n ≠ some (d.truncate name).2 := by
  intro h
  have hopened := inode_truncate (d := d) name name
  have hother := inode_truncate (d := d) name n
  rw [if_pos rfl] at hopened
  rw [if_neg hne, h] at hother
  exact hne ((d.truncate name).1.name_inj hopened hother)

theorem read_truncate_of_ne {name n : κ} (hne : name ≠ n) :
    (d.truncate name).1.read n = d.read n := by
  rw [Disk.read, Disk.read, inode_truncate, if_neg hne]
  cases hn : d.inode n with
  | none => rfl
  | some i =>
      have hi : i ≠ (d.truncate name).2 := by
        rintro rfl
        exact inode_ne_truncate hne hn
      rw [Option.map_some, Option.map_some, contents_truncate, if_neg hi]

theorem read_append_of_ne {i : Nat} (chunk : List β) {n : κ}
    (hne : d.inode n ≠ some i) : (d.append i chunk).read n = d.read n := by
  change (d.inode n).map (d.append i chunk).contents = (d.inode n).map d.contents
  cases hn : d.inode n with
  | none => rfl
  | some j =>
      have hj : j ≠ i := fun h => hne (h ▸ hn)
      exact congrArg some (Function.update_of_ne hj _ _)

theorem contents_append (i : Nat) (chunk : List β) :
    (d.append i chunk).contents i = d.contents i ++ chunk :=
  Function.update_self _ _ _

theorem inode_remove (name n : κ) :
    (d.remove name).inode n = if n = name then none else d.inode n :=
  lookup_erase d.dir name n

theorem read_remove (name n : κ) :
    (d.remove name).read n = if n = name then none else d.read n := by
  rw [Disk.read, inode_remove]
  split <;> rfl

theorem inode_rename {d' : Disk κ β} {source target : κ}
    (h : d.rename source target = some d') (n : κ) :
    d'.inode n =
      if target = n then d.inode source
      else if n = source then none else d.inode n := by
  rw [Disk.rename] at h
  split at h
  · cases h
  · rename_i i hsource
    obtain rfl := Option.some.inj h
    change lookup _ n = if target = n then d.inode source else _
    rw [lookup_put, lookup_erase, hsource]
    rfl

theorem contents_rename {d' : Disk κ β} {source target : κ}
    (h : d.rename source target = some d') : d'.contents = d.contents := by
  rw [Disk.rename] at h
  split at h
  · cases h
  · obtain rfl := Option.some.inj h
    rfl

theorem read_rename {d' : Disk κ β} {source target : κ}
    (h : d.rename source target = some d') (n : κ) :
    d'.read n =
      if target = n then d.read source
      else if n = source then none else d.read n := by
  rw [Disk.read, inode_rename h, contents_rename h]
  split
  · rfl
  · split <;> rfl

theorem inode_ne_none_of_rename {d' : Disk κ β} {source target : κ}
    (h : d.rename source target = some d') : d.inode source ≠ none := by
  rw [Disk.rename] at h
  split at h
  · cases h
  · rename_i i hsource
    rw [hsource]
    exact nofun

theorem exists_rename {source target : κ} (h : d.inode source ≠ none) :
    ∃ d', d.rename source target = some d' := by
  rw [Disk.rename]
  split
  · contradiction
  · exact ⟨_, rfl⟩

theorem mem_names_iff (n : κ) : n ∈ d.names ↔ d.inode n ≠ none := by
  rw [Disk.inode, lookup, ne_eq, Option.map_eq_none_iff, d.dir.find_eq_none_iff,
    not_not]
  rfl

end Laws

end AssistantHub.InodeFiles
