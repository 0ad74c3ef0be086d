import AssistantHub.MediaBatches
import AssistantHub.MediaCalls
import AssistantHub.MediaMirror

namespace AssistantHub.MediaSettled

open AssistantHub.Chunks
open AssistantHub.Fallible
open AssistantHub.HeaderEncoding
open AssistantHub.IndexStore
open AssistantHub.JellyfinItems
open AssistantHub.MediaBatches
open AssistantHub.MediaCalls
open AssistantHub.MediaDocs
open AssistantHub.MediaEffects
open AssistantHub.MediaMirror
open AssistantHub.MediaOutcome
open AssistantHub.MediaSync
open AssistantHub.RunPrefixes

def Indexing (m : MediaIndex) : Prop :=
  ∃ done total, m.state = .indexing done total

theorem indexing_effect {json : HeaderJson} {io : Io} {docs : List Doc}
    {a b : MediaIndex} (hstep : Effect json io docs a b) (ha : Indexing a) :
    Indexing b := by
  cases hstep with
  | indexing done total => exact ⟨done, total, rfl⟩
  | answered batch => exact ha
  | upsert d v _ _ _ => exact ha
  | save fault => exact ha

theorem indexing_effects {json : HeaderJson} {io : Io} {docs : List Doc}
    {a b : MediaIndex} (h : Effects json io docs a b) (ha : Indexing a) :
    Indexing b := by
  induction h with
  | refl => exact ha
  | tail _ hstep ih => exact indexing_effect hstep ih

theorem indexing_embedBatch (io : Io) (total n : Nat) (batch : List Doc)
    (m : MediaIndex) : Indexing (embedBatch io total n batch m).2 := by
  rw [embedBatch]
  cases io.embed n (batch.map Doc.text) with
  | error err => exact ⟨_, _, rfl⟩
  | ok vectors => exact ⟨_, _, rfl⟩

/-- An embedding sets the state with its first batch, and nothing in it sets it
back. -/
theorem indexing_embedAndStore (json : HeaderJson) (io : Io) {docs : List Doc}
    {m : MediaIndex} (hworker : m.worker = true) (hne : docs ≠ []) :
    Indexing (embedAndStore json io docs m).2 := by
  have hrest : ∀ n k sinceSave a, Effects json io docs a
      (embedBatches json io docs.length n k sinceSave
        (chunks BATCH (docs.drop BATCH)) a).2 := by
    apply effects_embedBatches
    intro batch hbatch d hd
    exact List.mem_of_mem_drop (mem_of_mem_chunks hbatch hd)
  rw [embedAndStore, if_neg hne, if_neg (by simp [hworker]),
    chunks_eq_cons (by decide) hne]
  exact indexing_effects (effects_embedBatches_cons _ hrest 0 0 0 m)
    (indexing_embedBatch io _ 0 _ m)

theorem indexing_storeChanges (json : HeaderJson) (io : Io) {ids : List String}
    {docs : List Doc} {m : MediaIndex} (hworker : m.worker = true)
    (hne : todo m.index ids docs ≠ []) :
    Indexing (storeChanges json io ids docs m).2 := by
  have hstored := indexing_embedAndStore json io
    (m := { m with index := (m.index.remove ids).2 }) hworker hne
  rw [storeChanges]
  refine andThen_snd hstored fun _ => ?_
  split <;> exact hstored

theorem state_storeChanges (json : HeaderJson) (io : Io) {ids : List String}
    {docs : List Doc} {m : MediaIndex} (hnil : todo m.index ids docs = []) :
    (storeChanges json io ids docs m).2.state = m.state := by
  rw [storeChanges, embedAndStore, if_pos hnil, andThen_of_ok rfl]
  split <;> rfl

/-- Something stays indexed: an entry that is not removed, or the first
document of the first batch. -/
def Remains (io : Io) (ids : List String) (docs : List Doc) (m : MediaIndex) :
    Prop :=
  (∃ e ∈ m.index.entries, e.id ∉ ids) ∨
    ∃ vectors, io.embed 0 (((todo m.index ids docs).take BATCH).map Doc.text) =
      .ok vectors

theorem entries_eq_nil_iff {F : Type} {ix : Index F} (h : ix.WellFormed) :
    ix.entries = [] ↔ ∀ id, ix.find id = none := by
  constructor
  · intro hnil id
    rw [← not_not (a := ix.find id = none), ← ne_eq, h.find_ne_none_iff, hnil]
    exact List.not_mem_nil
  · intro hnone
    rw [List.eq_nil_iff_forall_not_mem]
    intro e he
    exact (h.find_ne_none_iff e.id).mpr (List.mem_map_of_mem he) (hnone e.id)

/-- A call that fails in its embedding leaves the index empty only if nothing
remains. -/
theorem entries_storeChanges_eq_nil_iff (json : HeaderJson) {io : Io}
    {ids : List String} {docs : List Doc} {m : MediaIndex} (hsound : Sound m)
    (hsized : WellSized io m.cfg.dims) (hworker : m.worker = true)
    (hne : todo m.index ids docs ≠ []) :
    (storeChanges json io ids docs m).2.index.entries = [] ↔
      ¬Remains io ids docs m := by
  have hafter := (sound_storeChanges hsound json io ids docs).wellFormed
  rw [entries_eq_nil_iff hafter]
  constructor
  · rintro hnone (⟨e, he, hkept⟩ | ⟨vectors, hembed⟩)
    · have hfind := (hsound.wellFormed.find_ne_none_iff e.id).mpr
        (List.mem_map_of_mem he)
      exact find_ne_none_storeChanges hsound json io docs hkept hfind
        (hnone e.id)
    · obtain ⟨d, -, v, hfind⟩ :=
        exists_replaced_storeChanges json hsound hsized hworker hne hembed
      rw [hnone] at hfind
      cases hfind
  · intro hremains id
    rw [Remains, not_or, not_exists] at hremains
    obtain ⟨hgone, hfails⟩ := hremains
    have hfirst : ∃ err, io.embed 0
        (((todo m.index ids docs).take BATCH).map Doc.text) = .error err := by
      cases hembed : io.embed 0
          (((todo m.index ids docs).take BATCH).map Doc.text) with
      | error err => exact ⟨err, rfl⟩
      | ok vectors => exact absurd ⟨vectors, hembed⟩ hfails
    obtain ⟨⟨err, herr⟩, hindex, -⟩ := embedAndStore_stopped json
      (m := { m with index := (m.index.remove ids).2 }) hne (Or.inr hfirst)
    rw [storeChanges, andThen_of_error herr, hindex,
      find_remove hsound.wellFormed]
    split
    · rfl
    · rename_i hid
      by_contra hfind
      obtain ⟨e, he, rfl⟩ := List.mem_map.mp
        ((hsound.wellFormed.find_ne_none_iff id).mp hfind)
      exact hgone e ⟨he, hid⟩

/-- The call leaves the state at `Indexing`: a live update that has something to
embed, or a full comparison that fails in its embedding while the index is not
empty. -/
def Sticks (c : Call) (m : MediaIndex) : Prop :=
  ∃ ids docs, c.plan m = .ok (ids, docs) ∧ todo m.index ids docs ≠ [] ∧
    (c.isFullSync = true →
      ¬Completes c.io (todo m.index ids docs) ∧ Remains c.io ids docs m)

theorem not_sticks_of_todo_nil {c : Call} {m : MediaIndex} {ids : List String}
    {docs : List Doc} (hplan : c.plan m = .ok (ids, docs))
    (hnil : todo m.index ids docs = []) : ¬Sticks c m := by
  rintro ⟨ids', docs', hplan', hne, -⟩
  obtain ⟨rfl, rfl⟩ := Prod.mk.inj (Except.ok.inj (hplan.symm.trans hplan'))
  exact hne hnil

theorem sticks_fullSync_iff {io : Io} {works episodes : List Answer}
    {m : MediaIndex} {ids : List String} {docs : List Doc}
    (hplan : (Call.fullSync io works episodes).plan m = .ok (ids, docs))
    (hne : todo m.index ids docs ≠ []) :
    Sticks (.fullSync io works episodes) m ↔
      ¬Completes io (todo m.index ids docs) ∧ Remains io ids docs m := by
  constructor
  · rintro ⟨ids', docs', hplan', -, h⟩
    obtain ⟨rfl, rfl⟩ := Prod.mk.inj (Except.ok.inj (hplan.symm.trans hplan'))
    exact h rfl
  · exact fun h => ⟨ids, docs, hplan, hne, fun _ => h⟩

theorem not_indexing_issue {json : HeaderJson} {c : Call} {m : MediaIndex}
    (h : ¬Indexing (c.run json m).2) : ¬Indexing (issue json c m) := by
  cases c with
  | apply io answers changes => exact h
  | fullSync io works episodes =>
      change ¬Indexing (noteFailure (fullSync json io works episodes m))
      rw [noteFailure]
      split
      · exact h
      · split
        · rintro ⟨done, total, hstate⟩
          cases hstate
        · exact h

theorem not_indexing_run_of_todo_nil (json : HeaderJson) {c : Call}
    {m : MediaIndex} (hidle : ¬Indexing m) {ids : List String} {docs : List Doc}
    (hplan : c.plan m = .ok (ids, docs)) (hnil : todo m.index ids docs = []) :
    ¬Indexing (c.run json m).2 := by
  have hstored : ¬Indexing (storeChanges json c.io ids docs m).2 := by
    rw [Indexing, state_storeChanges json c.io hnil]
    exact hidle
  rw [run_of_plan_ok hplan]
  refine andThen_snd (p := fun a => ¬Indexing a) hstored fun _ => ?_
  cases c with
  | apply io answers changes => exact hstored
  | fullSync io works episodes =>
      rintro ⟨done, total, hstate⟩
      cases hstate

theorem storeChanges_fst_eq_ok_iff (json : HeaderJson) {io : Io}
    {ids : List String} {docs : List Doc} {m : MediaIndex}
    (hsized : WellSized io m.index.dims) (hworker : m.worker = true)
    (hne : todo m.index ids docs ≠ []) :
    (storeChanges json io ids docs m).1 = .ok () ↔
      Completes io (todo m.index ids docs) := by
  rw [storeChanges, andThen_fst_eq_ok, if_neg fun h => hne h.2,
    embedAndStore_fst_eq_ok_iff (m := { m with index := (m.index.remove ids).2 })
      hsized hworker hne]
  exact and_iff_left rfl

theorem indexing_fullSync_iff (json : HeaderJson) {io : Io}
    {works episodes : List Answer} {m : MediaIndex} (hsound : Sound m)
    (hsized : WellSized io m.cfg.dims) (hworker : m.worker = true)
    {ids : List String} {docs : List Doc}
    (hplan : (Call.fullSync io works episodes).plan m = .ok (ids, docs))
    (hne : todo m.index ids docs ≠ []) :
    Indexing (issue json (.fullSync io works episodes) m) ↔
      ¬Completes io (todo m.index ids docs) ∧ Remains io ids docs m := by
  have hok := storeChanges_fst_eq_ok_iff json (hsound.dims_eq.symm ▸ hsized)
    hworker hne
  have hempty := entries_storeChanges_eq_nil_iff json hsound hsized hworker hne
  have hissue : issue json (.fullSync io works episodes) m = noteFailure
      (andThen (storeChanges json io ids docs m) fun m =>
        (.ok (), { m with lastFullSync := some io.now, state := .ready })) :=
    congrArg noteFailure (run_of_plan_ok hplan json)
  rw [hissue]
  cases hresult : (storeChanges json io ids docs m).1 with
  | ok =>
      rw [andThen_of_ok hresult]
      refine iff_of_false ?_ fun h => h.1 (hok.mp hresult)
      rintro ⟨done, total, hstate⟩
      cases hstate
  | error err =>
      have hfails : ¬Completes io (todo m.index ids docs) := by
        rw [← hok, hresult]
        exact nofun
      rw [andThen_of_error hresult, noteFailure_of_error rfl]
      split
      · rename_i hnone
        refine iff_of_false ?_ fun h =>
          hempty.mp (List.isEmpty_iff.mp hnone) h.2
        rintro ⟨done, total, hstate⟩
        cases hstate
      · rename_i hsome
        refine iff_of_true (indexing_storeChanges json io hworker hne)
          ⟨hfails, ?_⟩
        by_contra hremains
        exact hsome (List.isEmpty_iff.mpr (hempty.mpr hremains))

theorem indexing_issue_iff (json : HeaderJson) {c : Call} {m : MediaIndex}
    (hsound : Sound m) (hsized : WellSized c.io m.cfg.dims)
    (hworker : m.worker = true) (hidle : ¬Indexing m) :
    Indexing (issue json c m) ↔ Sticks c m := by
  cases hplan : c.plan m with
  | error err =>
      refine iff_of_false (not_indexing_issue ?_) ?_
      · rw [run_of_plan_error hplan]
        exact hidle
      · rintro ⟨ids, docs, hplan', -⟩
        rw [hplan] at hplan'
        cases hplan'
  | ok plan =>
      obtain ⟨ids, docs⟩ := plan
      rcases eq_or_ne (todo m.index ids docs) [] with hnil | hne
      · exact iff_of_false
          (not_indexing_issue (not_indexing_run_of_todo_nil json hidle hplan hnil))
          (not_sticks_of_todo_nil hplan hnil)
      · cases c with
        | apply io answers changes =>
            have hstored := indexing_storeChanges json io hworker hne
            refine iff_of_true ?_ ⟨ids, docs, hplan, hne, nofun⟩
            change Indexing ((Call.apply io answers changes).run json m).2
            rw [run_of_plan_ok hplan]
            exact andThen_snd hstored fun _ => hstored
        | fullSync io works episodes =>
            rw [sticks_fullSync_iff hplan hne]
            exact indexing_fullSync_iff json hsound hsized hworker hplan hne

/-- Between the calls the state is not `Indexing`, and a live update keeps
`Ready`. -/
def Settled (json : HeaderJson) (m : MediaIndex) (calls : List Call) : Prop :=
  (∀ past, past <+: calls → ¬Indexing (issued json past m)) ∧
    ∀ past io answers changes,
      past ++ [Call.apply io answers changes] <+: calls →
      (apply json io answers changes (issued json past m)).1 = .ok () →
      (issued json past m).state = .ready →
      (issued json (past ++ [.apply io answers changes]) m).state = .ready

theorem state_issue_apply {json : HeaderJson} {io : Io} {answers : List Answer}
    {changes : Changes} {m : MediaIndex}
    (h : ¬Sticks (.apply io answers changes) m) :
    (issue json (.apply io answers changes) m).state = m.state := by
  change ((Call.apply io answers changes).run json m).2.state = m.state
  cases hplan : (Call.apply io answers changes).plan m with
  | error err => rw [run_of_plan_error hplan]
  | ok plan =>
      obtain ⟨ids, docs⟩ := plan
      have hnil : todo m.index ids docs = [] := by
        by_contra hne
        exact h ⟨ids, docs, hplan, hne, nofun⟩
      have hstored := state_storeChanges json io hnil
      rw [run_of_plan_ok hplan]
      exact andThen_snd (p := fun a : MediaIndex => a.state = m.state) hstored
        fun _ => hstored

/-- The reported state stays settled in exactly the runs in which no call
leaves `Indexing` behind. -/
theorem settled_iff {json : HeaderJson} {m : MediaIndex} (hsound : Sound m)
    (hworker : m.worker = true) (hidle : ¬Indexing m) {calls : List Call}
    (hsized : ∀ c ∈ calls, WellSized c.io m.cfg.dims) :
    Settled json m calls ↔
      ∀ past c, past ++ [c] <+: calls → ¬Sticks c (issued json past m) := by
  have hstep : ∀ past c, past ++ [c] <+: calls →
      ¬Indexing (issued json past m) →
      (Indexing (issued json (past ++ [c]) m) ↔ Sticks c (issued json past m)) := by
    intro past c hpast hbefore
    have hc : c ∈ calls := hpast.subset (by simp)
    obtain ⟨hcfg, hworker'⟩ := Prod.mk.inj (frame_issued json past m)
    rw [issued_concat]
    exact indexing_issue_iff json (sound_issued hsound json past)
      (hcfg ▸ hsized c hc) (hworker'.trans hworker) hbefore
  constructor
  · intro h past c hpast
    have hbefore := h.1 past ((List.prefix_append past [c]).trans hpast)
    rw [← hstep past c hpast hbefore]
    exact h.1 _ hpast
  · intro h
    constructor
    · intro past
      apply prefix_induct
      · exact hidle
      · intro past c hpast hbefore
        rw [hstep past c hpast hbefore]
        exact h past c hpast
    · intro past io answers changes hpast _ hready
      rw [issued_concat, state_issue_apply (h past _ hpast)]
      exact hready

/-- A live update brings a second movie. -/
def cocoCalls : List Call :=
  [.apply goodIo [listFrom cocoLibrary] { changed := ["m2"], removed := [] }]

theorem settled_iff_cocoCalls :
    Settled compactJson duneIndex cocoCalls ↔
      ∀ past c, past ++ [c] <+: cocoCalls →
        ¬Sticks c (issued compactJson past duneIndex) := by
  have hcfg : duneIndex.cfg = testConfig := congrArg Prod.fst frame_duneIndex
  have hidle : ¬Indexing duneIndex := by
    rintro ⟨done, total, hstate⟩
    have hready : duneIndex.state = .ready := by decide
    rw [hready] at hstate
    cases hstate
  refine settled_iff called_duneIndex.invariant.1
    (congrArg Prod.snd frame_duneIndex) hidle ?_
  intro c hc
  obtain rfl := List.mem_singleton.mp hc
  rw [hcfg]
  exact wellSized_of_uses uses_goodIo

set_option maxRecDepth 2000 in
theorem not_settled_cocoCalls :
    duneIndex.state = .ready ∧
      (apply compactJson goodIo [listFrom cocoLibrary]
        { changed := ["m2"], removed := [] } duneIndex).1 = .ok () ∧
      (issued compactJson cocoCalls duneIndex).state = .indexing 0 1 ∧
      ¬Settled compactJson duneIndex cocoCalls := by
  have hstate : (issued compactJson cocoCalls duneIndex).state =
      .indexing 0 1 := by decide
  refine ⟨by decide, by decide, hstate, ?_⟩
  intro h
  exact h.1 cocoCalls (List.prefix_refl _) ⟨0, 1, hstate⟩

end AssistantHub.MediaSettled
