import Mathlib.Data.List.Nodup

namespace AssistantHub.CommandLines

variable {α : Type*}

/-- An option with the values that stand behind it. -/
structure Setting (α : Type*) where
  name : α
  values : List α
  deriving DecidableEq

def words (settings : List (Setting α)) : List α :=
  settings.flatMap fun s => s.name :: s.values

@[simp] theorem words_nil : words ([] : List (Setting α)) = [] := rfl

@[simp] theorem words_cons (s : Setting α) (settings : List (Setting α)) :
    words (s :: settings) = s.name :: (s.values ++ words settings) := rfl

@[simp] theorem words_append (a b : List (Setting α)) : words (a ++ b) = words a ++ words b :=
  List.flatMap_append

/-- A program reads its arguments by the number of values that each option takes. -/
def read (arity : α → Nat) : List α → List (Setting α)
  | [] => []
  | name :: rest => ⟨name, rest.take (arity name)⟩ :: read arity (rest.drop (arity name))
termination_by args => args.length
decreasing_by simp only [List.length_drop, List.length_cons]; omega

@[simp] theorem read_nil (arity : α → Nat) : read arity [] = [] := by
  rw [read]

/-- No value is taken for an option, whatever it is. -/
theorem read_words_append {arity : α → Nat} {settings : List (Setting α)}
    (h : ∀ s ∈ settings, s.values.length = arity s.name) (rest : List α) :
    read arity (words settings ++ rest) = settings ++ read arity rest := by
  induction settings with
  | nil => rfl
  | cons s settings ih =>
      obtain ⟨hs, hsettings⟩ := List.forall_mem_cons.mp h
      rw [words_cons, List.cons_append, List.append_assoc, read, List.take_left' hs,
        List.drop_left' hs, ih hsettings]
      rfl

section Effective

variable [DecidableEq α]

/-- The last setting of an option counts. -/
def effective (name : α) (settings : List (Setting α)) : Option (List α) :=
  (settings.reverse.find? fun s => s.name = name).map Setting.values

theorem effective_append (name : α) (a b : List (Setting α)) :
    effective name (a ++ b) = (effective name b).or (effective name a) := by
  rw [effective, List.reverse_append, List.find?_append, Option.map_or]
  rfl

theorem effective_eq_none {name : α} {settings : List (Setting α)}
    (h : ∀ s ∈ settings, s.name ≠ name) : effective name settings = none := by
  rw [effective, Option.map_eq_none_iff, List.find?_eq_none]
  intro s hs
  rw [decide_eq_true_eq]
  exact h s (List.mem_reverse.mp hs)

/-- Where each option stands once, each setting counts. -/
theorem effective_of_mem {settings : List (Setting α)}
    (hnodup : (settings.map Setting.name).Nodup) {s : Setting α} (hs : s ∈ settings) :
    effective s.name settings = some s.values := by
  rw [effective, Option.map_eq_some_iff]
  refine ⟨s, ?_, rfl⟩
  have hfound : (settings.reverse.find? fun t => decide (t.name = s.name)).isSome = true :=
    List.find?_isSome.mpr ⟨s, List.mem_reverse.mpr hs, decide_eq_true rfl⟩
  obtain ⟨t, ht⟩ := Option.isSome_iff_exists.mp hfound
  have hmem : t ∈ settings := List.mem_reverse.mp (List.mem_of_find?_eq_some ht)
  have hname : t.name = s.name := by simpa using List.find?_some ht
  rw [ht, List.inj_on_of_nodup_map hnodup hmem hs hname]

end Effective

end AssistantHub.CommandLines
