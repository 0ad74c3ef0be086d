import AssistantHub.Engines
import AssistantHub.Occurrences

namespace AssistantHub.ChatTemplates

open AssistantHub.Engines (Family)
open AssistantHub.Occurrences

/-- The line of the generation prompt that opens the thinking block, and its replacement with
a closed block after a tool result. -/
def patchFor : Family → Option (String × String)
  | .ling3 => some
      ("\x7b%- if thinking_option == 'on' %\x7d",
        "\x7b%- if thinking_option == 'on' and messages[-1].role == 'tool' %\x7d\n        " ++
          "\x7b\x7b- '\\n<think></think>' \x7d\x7d\n    \x7b%- elif thinking_option == 'on' %\x7d")
  | .lfm3 => some
      ("\x7b%- if enable_thinking -%\x7d\n        \x7b\x7b- \"<think>\" -\x7d\x7d",
        "\x7b%- if enable_thinking and messages[-1].role == \"tool\" -%\x7d\n        " ++
          "\x7b\x7b- \"<think></think>\" -\x7d\x7d\n    " ++
          "\x7b%- elif enable_thinking -%\x7d\n        \x7b\x7b- \"<think>\" -\x7d\x7d")
  | .minicpm5 => some
      ("\x7b%- elif enable_thinking is true %\x7d",
        "\x7b%- elif enable_thinking is true and messages[-1].role == 'tool' %\x7d\n            " ++
          "\x7b\x7b- '<think>\\n\\n</think>\\n\\n' \x7d\x7d\n        " ++
          "\x7b%- elif enable_thinking is true %\x7d")
  | .qwen35 | .granite4 => none

inductive Outcome where
  | notNeeded
  | patched (template : String)
  | noMatch (n : Nat)
  deriving DecidableEq

/-- `template.replacen(find, replace, 1)` -/
def replaceFirst (find replace template : String) : String :=
  match splitFirst find.toList template.toList with
  | none => template
  | some (before, after) => String.ofList (before ++ (replace.toList ++ after))

/-- Applies the patch of a family to a template. -/
def patch (family : Family) (template : String) : Outcome :=
  match patchFor family with
  | none => .notNeeded
  | some (find, replace) =>
      match occurrences find.toList template.toList with
      | 1 => .patched (replaceFirst find replace template)
      | n => .noMatch n

theorem borderless_of_patchFor {family : Family} {find replace : String}
    (h : patchFor family = some (find, replace)) :
    find.toList ≠ [] ∧ Borderless find.toList := by
  cases family with
  | ling3 =>
      cases h
      exact ⟨by decide, by decide⟩
  | lfm3 =>
      cases h
      exact ⟨by decide, by decide⟩
  | minicpm5 =>
      cases h
      exact ⟨by decide, by decide⟩
  | qwen35 => cases h
  | granite4 => cases h

theorem patch_of_once {family : Family} {find replace template : String}
    (hpatch : patchFor family = some (find, replace))
    (h : occurrences find.toList template.toList = 1) :
    patch family template = .patched (replaceFirst find replace template) := by
  rw [patch, hpatch]
  dsimp only
  rw [h]
  rfl

theorem patch_of_ne_one {family : Family} {find replace template : String}
    (hpatch : patchFor family = some (find, replace))
    (h : occurrences find.toList template.toList ≠ 1) :
    patch family template = .noMatch (occurrences find.toList template.toList) := by
  rw [patch, hpatch]
  dsimp only
  split
  · rename_i hone
    exact absurd hone h
  · rfl

theorem patch_eq_patched_iff {family : Family} {template result : String} :
    patch family template = .patched result ↔
      ∃ find replace before after, patchFor family = some (find, replace) ∧
        template.toList = before ++ (find.toList ++ after) ∧
          (∀ i, find.toList <+: template.toList.drop i → i = before.length) ∧
            result = String.ofList (before ++ (replace.toList ++ after)) := by
  constructor
  · intro h
    rcases hpatch : patchFor family with _ | ⟨find, replace⟩
    · rw [patch, hpatch] at h
      cases h
    · obtain ⟨hne, hborder⟩ := borderless_of_patchFor hpatch
      by_cases hone : occurrences find.toList template.toList = 1
      · obtain ⟨before, after, hsplit, honce⟩ := (occurrences_eq_one_iff hne hborder).mp hone
        rw [patch_of_once hpatch hone, replaceFirst, hsplit] at h
        exact ⟨find, replace, before, after, rfl, (eq_of_splitFirst hne hsplit).1, honce,
          (Outcome.patched.inj h).symm⟩
      · rw [patch_of_ne_one hpatch hone] at h
        cases h
  · rintro ⟨find, replace, before, after, hpatch, htext, honce, rfl⟩
    obtain ⟨hne, hborder⟩ := borderless_of_patchFor hpatch
    have hsplit := splitFirst_of_once hne htext honce
    rw [patch_of_once hpatch ((occurrences_eq_one_iff hne hborder).mpr
      ⟨before, after, hsplit, honce⟩), replaceFirst, hsplit]

theorem patch_eq_noMatch_iff {family : Family} {template : String} :
    patch family template = .noMatch 0 ↔
      ∃ find replace, patchFor family = some (find, replace) ∧
        ∀ i, ¬ find.toList <+: template.toList.drop i := by
  rcases hpatch : patchFor family with _ | ⟨find, replace⟩
  · rw [patch, hpatch]
    refine iff_of_false (by simp only [reduceCtorEq, not_false_eq_true]) ?_
    rintro ⟨_, _, h, -⟩
    cases h
  · obtain ⟨hne, -⟩ := borderless_of_patchFor hpatch
    by_cases hone : occurrences find.toList template.toList = 1
    · rw [patch_of_once hpatch hone]
      refine iff_of_false (by simp only [reduceCtorEq, not_false_eq_true]) ?_
      rintro ⟨_, _, heq, hnone⟩
      cases heq
      rw [occurrences_of_none hne ((splitFirst_eq_none_iff hne).mpr hnone)] at hone
      exact Nat.zero_ne_one hone
    · rw [patch_of_ne_one hpatch hone, Outcome.noMatch.injEq, occurrences_eq_zero_iff hne,
        splitFirst_eq_none_iff hne]
      constructor
      · intro hnone
        exact ⟨find, replace, rfl, hnone⟩
      · rintro ⟨_, _, heq, hnone⟩
        cases heq
        exact hnone

/-- A template is patched exactly where the line to patch stands in one place of it, and only
there; without the line it stays as it is. -/
theorem patch_outcome (family : Family) (template : String) :
    (∀ result, patch family template = .patched result ↔
      ∃ find replace before after, patchFor family = some (find, replace) ∧
        template.toList = before ++ (find.toList ++ after) ∧
          (∀ i, find.toList <+: template.toList.drop i → i = before.length) ∧
            result = String.ofList (before ++ (replace.toList ++ after))) ∧
      (patch family template = .noMatch 0 ↔
        ∃ find replace, patchFor family = some (find, replace) ∧
          ∀ i, ¬ find.toList <+: template.toList.drop i) :=
  ⟨fun _ => patch_eq_patched_iff, patch_eq_noMatch_iff⟩

end AssistantHub.ChatTemplates
