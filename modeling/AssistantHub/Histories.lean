import Mathlib.Data.List.Induction

namespace AssistantHub.Histories

section Laws

variable {ε : Type*} {allowed : List ε → ε → Prop} {log : List ε}

/-- Every event was allowed by what had happened before it. -/
def Lawful (allowed : List ε → ε → Prop) (log : List ε) : Prop :=
  ∀ past e, past ++ [e] <+: log → allowed past e

theorem lawful_nil : Lawful allowed [] := by
  intro past e h
  simp at h

theorem lawful_concat {e : ε} (h : Lawful allowed log) (he : allowed log e) :
    Lawful allowed (log ++ [e]) := by
  intro past e' hpast
  rcases List.prefix_concat_iff.mp hpast with heq | hbefore
  · obtain ⟨rfl, hlast⟩ := List.append_inj' heq rfl
    obtain rfl := List.singleton_inj.mp hlast
    exact he
  · exact h past e' hbefore

theorem Lawful.of_prefix {past : List ε} (h : Lawful allowed log)
    (hpast : past <+: log) : Lawful allowed past :=
  fun before e hbefore => h before e (hbefore.trans hpast)

end Laws

section Latest

variable {ε β : Type*} {f : ε → Option β}

/-- What the last event says of those of which `f` says something. -/
def latest (f : ε → Option β) (log : List ε) : Option β :=
  log.reverse.findSome? f

@[simp] theorem latest_nil : latest f [] = none := rfl

@[simp] theorem latest_concat (log : List ε) (e : ε) :
    latest f (log ++ [e]) = (f e).or (latest f log) := by
  rw [latest, List.reverse_append, List.reverse_singleton, List.singleton_append,
    List.findSome?_cons]
  cases f e <;> rfl

@[simp] theorem latest_append (log later : List ε) :
    latest f (log ++ later) = (latest f later).or (latest f log) := by
  simp [latest, List.findSome?_append]

@[simp] theorem latest_cons (e : ε) (log : List ε) :
    latest f (e :: log) = (latest f log).or (f e) := by
  rw [← List.singleton_append, latest_append]
  simp [latest]

theorem exists_of_latest {log : List ε} {b : β} (h : latest f log = some b) :
    ∃ e ∈ log, f e = some b := by
  obtain ⟨e, hmem, he⟩ := List.exists_of_findSome?_eq_some h
  exact ⟨e, List.mem_reverse.mp hmem, he⟩

end Latest

end AssistantHub.Histories
