import AssistantHub.CachedModels
import AssistantHub.RustText
import AssistantHub.Runs
import Mathlib.Data.Finset.Card

namespace AssistantHub.CpuCores

open AssistantHub.CachedModels (splitOnce)
open AssistantHub.RustText
open AssistantHub.Runs

/-- What was read of /proc/cpuinfo so far. -/
structure Scan where
  package : Option String
  core : Option String
  seen : Finset (String × String)

/-- The name and the value of a line. -/
def keyValue (line : String) : Option (String × String) :=
  (splitOnce ':' line.toList).map fun parts =>
    (trim (String.ofList parts.1), trim (String.ofList parts.2))

/-- An empty line ends a processor. -/
def scanLine (s : Scan) (line : String) : Scan :=
  if trim line = "" then
    { package := none
      core := none
      seen :=
        match s.package, s.core with
        | some p, some c => insert (p, c) s.seen
        | _, _ => s.seen }
  else
    match keyValue line with
    | none => s
    | some (key, value) =>
        if key = "physical id" then { s with package := some value }
        else if key = "core id" then { s with core := some value }
        else s

/-- The number of physical cores. None if the file does not list them. -/
def physicalCores (cpuinfo : String) : Option Nat :=
  let seen := ((lines cpuinfo ++ [""]).foldl scanLine ⟨none, none, ∅⟩).seen
  if seen.card = 0 then none else some seen.card

/-- Threads for ik_llama.cpp. -/
def ikThreads (cpuinfo : String) (logical : Nat) : Nat :=
  let threads :=
    match physicalCores cpuinfo with
    | none => logical
    | some p => min p logical
  min 8 (max 1 threads)

section Processors

def isBlank (line : String) : Bool := trim line = ""

/-- The value of a line that has this name. -/
def valueOf (name line : String) : Option String :=
  (keyValue line).bind fun kv => if kv.1 = name then some kv.2 else none

/-- The last value of a name. -/
def field (name : String) (processor : List String) : Option String :=
  (processor.filterMap (valueOf name)).getLast?

/-- The package and the core of a processor. -/
def coreOf (processor : List String) : Option (String × String) :=
  (field "physical id" processor).bind fun p => (field "core id" processor).map fun c => (p, c)

/-- The processors that the file lists. -/
def processors (cpuinfo : String) : List (List String) := runs isBlank (lines cpuinfo)

def cores (processors : List (List String)) : Finset (String × String) :=
  (processors.filterMap coreOf).toFinset

/-- What the scan holds within a processor. -/
def within (processor : List String) (seen : Finset (String × String)) : Scan :=
  ⟨field "physical id" processor, field "core id" processor, seen⟩

theorem field_append (name : String) (processor : List String) (line : String) :
    field name (processor ++ [line]) = (valueOf name line).or (field name processor) := by
  rw [field, List.filterMap_append, List.getLast?_append]
  rcases h : valueOf name line with _ | v
  · rw [List.filterMap_cons_none h]
    rfl
  · rw [List.filterMap_cons_some h]
    rfl

theorem scanLine_of_not_blank {line : String} (h : isBlank line = false)
    (processor : List String) (seen : Finset (String × String)) :
    scanLine (within processor seen) line = within (processor ++ [line]) seen := by
  rw [scanLine, if_neg (of_decide_eq_false h), within, within, field_append, field_append, valueOf,
    valueOf]
  rcases keyValue line with _ | ⟨key, value⟩
  · rfl
  · dsimp only [Option.bind_some]
    by_cases hp : key = "physical id"
    · subst hp
      rfl
    · by_cases hc : key = "core id"
      · subst hc
        rfl
      · rw [if_neg hp, if_neg hc, if_neg hp, if_neg hc]
        rfl

theorem scanLine_of_blank {line : String} (h : isBlank line = true)
    (processor : List String) (seen : Finset (String × String)) :
    scanLine (within processor seen) line = within [] (seen ∪ cores [processor]) := by
  rw [scanLine, if_pos (of_decide_eq_true h), cores, List.filterMap_cons, coreOf, within]
  rcases field "physical id" processor with _ | p
  · simp [within, field]
  · rcases field "core id" processor with _ | c
    · simp [within, field]
    · simp [within, field]

theorem foldl_scanLine_of_not_blank {part : List String} (h : ∀ line ∈ part, isBlank line = false)
    (seen : Finset (String × String)) :
    part.foldl scanLine (within [] seen) = within part seen := by
  induction part using List.reverseRecOn with
  | nil => rfl
  | append_singleton part line ih =>
      rw [List.foldl_append, ih fun l hl => h l (List.mem_append_left _ hl), List.foldl_cons,
        List.foldl_nil]
      exact scanLine_of_not_blank (h line (List.mem_append_right _ (List.mem_singleton.mpr rfl)))
        part seen

theorem cores_append (a b : List (List String)) : cores (a ++ b) = cores a ∪ cores b := by
  rw [cores, List.filterMap_append, List.toFinset_append]
  rfl

theorem cores_runs_of_not_blank {part : List String} (h : ∀ line ∈ part, isBlank line = false) :
    cores (runs isBlank part) = cores [part] := by
  rcases eq_or_ne part [] with rfl | hpart
  · rfl
  · rw [runs_eq_singleton hpart h]

/-- The induction is on the lines behind the processors that were read. -/
theorem foldl_scanLine (ls : List String) (seen : Finset (String × String)) :
    (ls ++ [""]).foldl scanLine (within [] seen) =
      within [] (seen ∪ cores (runs isBlank ls)) := by
  induction hlength : ls.length using Nat.strongRecOn generalizing ls seen with
  | ind length ih =>
      rcases no_sep_or_first isBlank ls with hnone | ⟨part, line, rest, rfl, hpart, hline⟩
      · rw [List.foldl_append, foldl_scanLine_of_not_blank hnone, List.foldl_cons, List.foldl_nil,
          scanLine_of_blank (by decide), cores_runs_of_not_blank hnone]
      · rw [List.length_append, List.length_cons] at hlength
        rw [List.append_assoc, List.cons_append, List.foldl_append,
          foldl_scanLine_of_not_blank hpart, List.foldl_cons, scanLine_of_blank hline,
          ih rest.length (by omega) rest _ rfl, runs_append_cons hline, cores_append,
          cores_runs_of_not_blank hpart, Finset.union_assoc]

theorem physicalCores_eq_some_iff {cpuinfo : String} {n : Nat} :
    physicalCores cpuinfo = some n ↔ n ≠ 0 ∧ (cores (processors cpuinfo)).card = n := by
  have hseen : ((lines cpuinfo ++ [""]).foldl scanLine ⟨none, none, ∅⟩).seen =
      cores (processors cpuinfo) := by
    rw [show (⟨none, none, ∅⟩ : Scan) = within [] ∅ from rfl, foldl_scanLine, Finset.empty_union]
    rfl
  rw [physicalCores, hseen]
  split
  · rename_i hzero
    refine iff_of_false (by simp only [reduceCtorEq, not_false_eq_true]) ?_
    rintro ⟨hn, hcard⟩
    exact hn (hcard.symm.trans hzero)
  · rename_i hcard
    rw [Option.some.injEq]
    constructor
    · rintro rfl
      exact ⟨hcard, rfl⟩
    · exact And.right

/-- The cores are the pairs of package and core of all processors that are listed, in any
order and as often as they are. The threads are no more than these, than the CPUs of the
process and than eight, but at least one. -/
theorem ik_threads (cpuinfo : String) :
    (∀ n, physicalCores cpuinfo = some n ↔ n ≠ 0 ∧ (cores (processors cpuinfo)).card = n) ∧
      ∀ logical, 1 ≤ ikThreads cpuinfo logical ∧ ikThreads cpuinfo logical ≤ 8 ∧
        ikThreads cpuinfo logical ≤ max 1 logical ∧
          (cores (processors cpuinfo) ≠ ∅ →
            ikThreads cpuinfo logical ≤ (cores (processors cpuinfo)).card) := by
  refine ⟨fun n => physicalCores_eq_some_iff, fun logical => ?_⟩
  rw [ikThreads]
  rcases hcores : physicalCores cpuinfo with _ | n
  · dsimp only
    refine ⟨by omega, by omega, by omega, fun hne => ?_⟩
    have hsome := (@physicalCores_eq_some_iff cpuinfo _).mpr
      ⟨(Finset.card_pos.mpr (Finset.nonempty_iff_ne_empty.mpr hne)).ne', rfl⟩
    rw [hcores] at hsome
    cases hsome
  · obtain ⟨hn, hcard⟩ := physicalCores_eq_some_iff.mp hcores
    rw [hcard]
    show 1 ≤ min 8 (max 1 (min n logical)) ∧ min 8 (max 1 (min n logical)) ≤ 8 ∧
      min 8 (max 1 (min n logical)) ≤ max 1 logical ∧
        (_ → min 8 (max 1 (min n logical)) ≤ n)
    refine ⟨by omega, by omega, by omega, fun _ => by omega⟩

end Processors

end AssistantHub.CpuCores
