import AssistantHub.MediaCalls
import AssistantHub.MediaMirror

namespace AssistantHub.MediaSaved

open AssistantHub.Fallible
open AssistantHub.HeaderEncoding
open AssistantHub.IndexFiles
open AssistantHub.IndexStore
open AssistantHub.MediaCalls
open AssistantHub.MediaDocs
open AssistantHub.MediaMirror
open AssistantHub.MediaOutcome
open AssistantHub.MediaSync
open AssistantHub.RunPrefixes

/-- A restart would read back the map in memory. -/
def Saved (json : HeaderJson) (m : MediaIndex) : Prop :=
  (∃ ix, loadIndex json m = some ix ∧ ix.SameMap m.index) ∨
    loadIndex json m = none ∧ m.index.entries = [] ∧ m.saves = 0

theorem saved_of_flushed {json : HeaderJson} {m : MediaIndex} (hsound : Sound m)
    (h : Flushed json m) : Saved json m := by
  refine Or.inl ⟨m.index, ?_, fun _ => rfl⟩
  rw [loadIndex, ← hsound.dims_eq]
  exact load_of_savedFiles hsound.wellFormed h.files_eq

theorem saved_finish_iff (json : HeaderJson) (c : Call) (m : MediaIndex) :
    Saved json (c.finish m) ↔ Saved json m := by
  cases c <;> exact Iff.rfl

/-- The call finds an indexed entry to remove, or a document to embed. -/
def HasWork (c : Call) (m : MediaIndex) : Prop :=
  ∃ ids docs, c.plan m = .ok (ids, docs) ∧
    ((∃ id ∈ ids, m.index.find id ≠ none) ∨ todo m.index ids docs ≠ [])

theorem saved_run_iff {json : HeaderJson} {c : Call} {m : MediaIndex}
    (hsound : Sound m) (hok : (c.run json m).1 = .ok ()) :
    Saved json (c.run json m).2 ↔ Saved json m ∨ HasWork c m := by
  obtain ⟨ids, docs, hplan⟩ := exists_plan_of_ok hok
  rw [run_of_plan_ok hplan] at hok ⊢
  have hstored := ((andThen_fst_eq_ok _ _).mp hok).1
  rw [andThen_of_ok hstored, saved_finish_iff]
  by_cases hwork : (∃ id ∈ ids, m.index.find id ≠ none) ∨
      todo m.index ids docs ≠ []
  · have hflushed : Flushed json (storeChanges json c.io ids docs m).2 :=
      flushed_storeChanges hstored
        (hwork.imp_left (remove_fst_pos_iff hsound.wellFormed ids).mpr)
    constructor
    · intro _
      exact Or.inr ⟨ids, docs, hplan, hwork⟩
    · intro _
      exact saved_of_flushed (sound_storeChanges hsound _ _ _ _) hflushed
  · have hnone : ¬HasWork c m := by
      rintro ⟨ids', docs', hplan', hwork'⟩
      rw [hplan] at hplan'
      obtain ⟨rfl, rfl⟩ := Prod.mk.inj (Except.ok.inj hplan')
      exact hwork hwork'
    rw [not_or, not_not] at hwork
    have hremoved : (m.index.remove ids).1 = 0 := by
      rw [← Nat.le_zero, ← Nat.not_lt, remove_fst_pos_iff hsound.wellFormed]
      exact hwork.1
    rw [storeChanges_of_no_work hsound.wellFormed hremoved hwork.2]
    exact ⟨Or.inl, fun h => h.resolve_right hnone⟩

/-- After every call that succeeds, the saved index is the one in memory. -/
def SavedAfterOk (json : HeaderJson) (m : MediaIndex) (calls : List Call) :
    Prop :=
  ∀ past c, past ++ [c] <+: calls →
    (c.run json (after json past m)).1 = .ok () →
    Saved json (after json (past ++ [c]) m)

/-- Changes that a failed call left in memory only are saved by the next call
because that has work of its own. -/
def LeftoversSaved (json : HeaderJson) (m : MediaIndex) (calls : List Call) :
    Prop :=
  ∀ past failed c, past ++ [failed] ++ [c] <+: calls →
    (failed.run json (after json past m)).1 ≠ .ok () →
    (c.run json (after json (past ++ [failed]) m)).1 = .ok () →
    Saved json (after json (past ++ [failed]) m) ∨
      HasWork c (after json (past ++ [failed]) m)

def FailedLast (json : HeaderJson) (m : MediaIndex) (calls : List Call) : Prop :=
  ∃ past failed, calls = past ++ [failed] ∧
    (failed.run json (after json past m)).1 ≠ .ok ()

/-- A run keeps the promise that success means saved exactly if each call after
a failed one has work of its own or nothing is left to save. -/
theorem savedAfterOk_iff {json : HeaderJson} {m : MediaIndex} (hsound : Sound m)
    (hsaved : Saved json m) (calls : List Call) :
    SavedAfterOk json m calls ↔ LeftoversSaved json m calls := by
  constructor
  · intro h past failed c hpast _ hok
    have hafter := h (past ++ [failed]) c hpast hok
    rw [after_concat] at hafter
    exact (saved_run_iff (sound_after hsound json _) hok).mp hafter
  · intro h
    -- By induction on the run: the state is saved unless the last call failed.
    have hrun : ∀ {past}, past <+: calls →
        Saved json (after json past m) ∨ FailedLast json m past := by
      apply prefix_induct
      · exact Or.inl hsaved
      · intro past c hpast ih
        by_cases hok : (c.run json (after json past m)).1 = .ok ()
        · left
          rw [after_concat, saved_run_iff (sound_after hsound json past) hok]
          rcases ih with hbefore | ⟨earlier, failed, rfl, hfailed⟩
          · exact Or.inl hbefore
          · exact h earlier failed c hpast hfailed hok
        · exact Or.inr ⟨past, c, rfl, hok⟩
    intro past c hpast hok
    rcases hrun hpast with hafter | ⟨earlier, failed, heq, hfailed⟩
    · exact hafter
    · obtain ⟨rfl, hc⟩ := List.append_inj' heq rfl
      obtain rfl := List.singleton_injective hc
      exact absurd hok hfailed

theorem saved_startIndex (json : HeaderJson) (cfg : MediaConfig) (dir : Dir) :
    Saved json (startIndex json cfg dir) := by
  rw [startIndex]
  split
  · rename_i saved hload
    exact Or.inl ⟨saved, hload, fun _ => rfl⟩
  · rename_i hload
    exact Or.inr ⟨hload, rfl, rfl⟩

/-- A call in which the save fails: the directory cannot be created. -/
def fullDiskIo : Io :=
  { goodIo with saveFault := fun _ => some ⟨0, none, "No space left on device"⟩ }

/-- The same comparison twice; the first one cannot save. -/
def duneCalls : List Call :=
  [.fullSync fullDiskIo [answerFrom duneLibrary] [],
    .fullSync goodIo [answerFrom duneLibrary] []]

theorem savedAfterOk_iff_duneCalls :
    SavedAfterOk compactJson testIndex duneCalls ↔
      LeftoversSaved compactJson testIndex duneCalls :=
  savedAfterOk_iff called_testIndex.invariant.1 (Or.inr ⟨rfl, rfl, rfl⟩) duneCalls

set_option maxRecDepth 2000 in
/-- The second comparison succeeds without a save, and nothing is on disk. -/
theorem not_savedAfterOk_duneCalls :
    loadIndex compactJson (after compactJson duneCalls testIndex) = none ∧
      (after compactJson duneCalls testIndex).index.find "m1" ≠ none ∧
      ¬SavedAfterOk compactJson testIndex duneCalls := by
  have hload :
      loadIndex compactJson (after compactJson duneCalls testIndex) = none := by
    decide
  have hfind : (after compactJson duneCalls testIndex).index.entries ≠ [] := by
    decide
  refine ⟨hload, by decide, ?_⟩
  intro h
  rcases h [.fullSync fullDiskIo [answerFrom duneLibrary] []]
    (.fullSync goodIo [answerFrom duneLibrary] []) (List.prefix_refl _)
    (by decide) with ⟨ix, hix, -⟩ | ⟨-, hempty, -⟩
  · rw [show [_] ++ [_] = duneCalls from rfl, hload] at hix
    cases hix
  · exact hfind hempty

end AssistantHub.MediaSaved
