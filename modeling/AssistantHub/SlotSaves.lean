import AssistantHub.RunPrefixes
import AssistantHub.SlotFiles

namespace AssistantHub.SlotSaves

open AssistantHub.CrashSteps
open AssistantHub.InodeFiles
open AssistantHub.RunPrefixes
open AssistantHub.SlotFiles

/-- The prompt cache file, if there is one, holds the complete output of a save
that was answered with success. -/
def Intact (s : System) : Prop :=
  ∀ bytes, s.disk.read s.file = some bytes → bytes ∈ s.finished

theorem file_ne_tmp (file : String) : file ≠ tmp file := by
  intro h
  have hlength := congrArg String.length h
  have hsuffix : ".tmp".length = 4 := rfl
  rw [tmp, String.length_append] at hlength
  omega

theorem length_le_of_startsWith {name start : String}
    (h : startsWith name start = true) :
    start.toList.length ≤ name.toList.length :=
  (List.isPrefixOf_iff_prefix.mp h).length_le

/-- What ties the files to the engine's saves. -/
structure Consistent (file : String) (disk : SlotDisk) (engine : Engine)
    (finished : List (List UInt8)) : Prop where
  intact : ∀ bytes, disk.read file = some bytes → bytes ∈ finished
  complete : engine = .idle true →
    ∀ bytes, disk.read (tmp file) = some bytes → bytes ∈ finished
  writing : ∀ request inode rest, engine = .writing request inode rest →
    disk.contents inode ++ rest.flatten = request.output.flatten ∧
      inode < disk.fresh ∧ disk.inode file ≠ some inode ∧
      ∀ i, disk.inode (tmp file) = some i → i = inode
  no_sidecars : ∀ name, startsWith name (tmp file ++ ".") = true →
    disk.inode name = none

theorem Consistent.sidecars_tmp {file : String} {disk : SlotDisk}
    {engine : Engine} {finished : List (List UInt8)}
    (h : Consistent file disk engine finished) :
    sidecars disk (tmp file) = [] := by
  rw [sidecars, List.filter_eq_nil_iff]
  intro name hname hstarts
  exact (mem_names_iff name).mp hname (h.no_sidecars name hstarts)

theorem Consistent.remove {file : String} {disk : SlotDisk} {engine : Engine}
    {finished : List (List UInt8)} (h : Consistent file disk engine finished)
    (name : String) : Consistent file (disk.remove name) engine finished where
  intact := by
    intro bytes hread
    rw [read_remove] at hread
    split at hread
    · cases hread
    · exact h.intact bytes hread
  complete := by
    intro hidle bytes hread
    rw [read_remove] at hread
    split at hread
    · cases hread
    · exact h.complete hidle bytes hread
  writing := by
    intro request inode rest hengine
    obtain ⟨hcontents, hfresh, hfile, htmp⟩ := h.writing request inode rest hengine
    refine ⟨hcontents, hfresh, ?_, ?_⟩
    · rw [inode_remove]
      split
      · exact nofun
      · exact hfile
    · intro i hi
      rw [inode_remove] at hi
      split at hi
      · cases hi
      · exact htmp i hi
  no_sidecars := by
    intro name' hstarts
    rw [inode_remove]
    split
    · rfl
    · exact h.no_sidecars name' hstarts

theorem not_startsWith_tmp (file : String) :
    ¬startsWith (tmp file) (tmp file ++ ".") = true := by
  intro h
  have hlength := length_le_of_startsWith h
  have hdot : ".".toList.length = 1 := rfl
  rw [String.toList_append, List.length_append] at hlength
  omega

theorem not_startsWith_file (file : String) :
    ¬startsWith file (tmp file ++ ".") = true := by
  intro h
  have hlength := length_le_of_startsWith h
  have hdot : ".".toList.length = 1 := rfl
  rw [String.toList_append, List.length_append, tmp, String.toList_append,
    List.length_append] at hlength
  omega

/-- The rename is sound when the temporary file is that of a finished save. -/
theorem Consistent.rename {file : String} {disk disk' : SlotDisk}
    {finished : List (List UInt8)}
    (h : Consistent file disk (.idle true) finished)
    (hrename : disk.rename (tmp file) file = some disk') :
    Consistent file disk' (.idle true) finished where
  intact := by
    intro bytes hread
    rw [read_rename hrename, if_pos rfl] at hread
    exact h.complete rfl bytes hread
  complete := by
    intro _ bytes hread
    rw [read_rename hrename, if_neg (file_ne_tmp file), if_pos rfl] at hread
    cases hread
  writing := nofun
  no_sidecars := by
    intro name hstarts
    have hfile : file ≠ name := by
      rintro rfl
      exact not_startsWith_file file hstarts
    rw [inode_rename hrename, if_neg hfile]
    split
    · rfl
    · exact h.no_sidecars name hstarts

theorem Consistent.begin {file : String} {disk : SlotDisk} {engine : Engine}
    {finished : List (List UInt8)} (h : Consistent file disk engine finished)
    (request : Request) :
    Consistent file (disk.truncate (tmp file)).1
      (.writing request (disk.truncate (tmp file)).2 request.output) finished where
  intact := by
    intro bytes hread
    rw [read_truncate_of_ne (file_ne_tmp file).symm] at hread
    exact h.intact bytes hread
  complete := nofun
  writing := by
    rintro request' inode rest hengine
    obtain ⟨rfl, rfl, rfl⟩ := Engine.writing.inj hengine
    refine ⟨?_, truncate_lt_fresh _, ?_, ?_⟩
    · rw [contents_truncate, if_pos rfl, List.nil_append]
    · rw [inode_truncate, if_neg (file_ne_tmp file).symm]
      exact inode_ne_truncate (file_ne_tmp file).symm
    · intro i hi
      rw [inode_truncate, if_pos rfl] at hi
      exact (Option.some.inj hi).symm
  no_sidecars := by
    intro name hstarts
    have hname : tmp file ≠ name := by
      rintro rfl
      exact not_startsWith_tmp file hstarts
    rw [inode_truncate, if_neg hname]
    exact h.no_sidecars name hstarts

theorem Consistent.write {file : String} {disk : SlotDisk} {request : Request}
    {inode : Nat} {chunk : List UInt8} {rest : List (List UInt8)}
    {finished : List (List UInt8)}
    (h : Consistent file disk (.writing request inode (chunk :: rest)) finished) :
    Consistent file (disk.append inode chunk) (.writing request inode rest)
      finished where
  intact := by
    obtain ⟨-, -, hfile, -⟩ := h.writing _ _ _ rfl
    intro bytes hread
    rw [read_append_of_ne chunk hfile] at hread
    exact h.intact bytes hread
  complete := nofun
  writing := by
    rintro request' inode' rest' hengine
    obtain ⟨rfl, rfl, rfl⟩ := Engine.writing.inj hengine
    obtain ⟨hcontents, hfresh, hfile, htmp⟩ := h.writing _ _ _ rfl
    refine ⟨?_, hfresh, hfile, htmp⟩
    rw [contents_append, List.append_assoc, ← List.flatten_cons, hcontents]
  no_sidecars := h.no_sidecars

theorem Consistent.answer {file : String} {disk : SlotDisk} {request : Request}
    {inode : Nat} {finished : List (List UInt8)}
    (h : Consistent file disk (.writing request inode []) finished) :
    Consistent file disk (.idle true) (request.output.flatten :: finished) where
  intact := by
    intro bytes hread
    exact List.mem_cons_of_mem _ (h.intact bytes hread)
  complete := by
    intro _ bytes hread
    obtain ⟨hcontents, -, -, htmp⟩ := h.writing _ _ _ rfl
    obtain ⟨i, hi, rfl⟩ := Option.map_eq_some_iff.mp hread
    obtain rfl := htmp i hi
    rw [List.flatten_nil, List.append_nil] at hcontents
    rw [hcontents]
    exact List.mem_cons_self
  writing := nofun
  no_sidecars := h.no_sidecars

theorem Consistent.fail {file : String} {disk : SlotDisk} {engine : Engine}
    {finished : List (List UInt8)} (h : Consistent file disk engine finished) :
    Consistent file disk (.idle false) finished where
  intact := h.intact
  complete := nofun
  writing := nofun
  no_sidecars := h.no_sidecars

/-- The invariant of the system. With no sidecar files there is nothing to move
after a rename. -/
structure Valid (s : System) : Prop where
  consistent : Consistent s.file s.disk s.engine s.finished
  moving_nil : ∀ c names, s.phase c = .moving names → names = []

theorem moving_nil_update {phase : Client → Phase}
    (h : ∀ c names, phase c = .moving names → names = []) (c : Client)
    {p : Phase} (hp : ∀ names, p = .moving names → names = []) :
    ∀ c' names, Function.update phase c p c' = .moving names → names = [] := by
  intro c' names heq
  rw [Function.update_apply] at heq
  split at heq
  · exact hp names heq
  · exact h c' names heq

theorem Valid.setPhase {s : System} (h : Valid s) (c : Client) {p : Phase}
    (hp : ∀ names, p = .moving names → names = []) : Valid (s.setPhase c p) :=
  ⟨h.consistent, moving_nil_update h.moving_nil c hp⟩

theorem home_ne_moving (c : Client) :
    ∀ names, c.home = .moving names → names = [] := by
  cases c <;> exact nofun

/-- Where a save is renamed, the temporary file is gone, or the last save that
the engine began was answered with success. -/
def Careful (a : Action) (s : System) : Prop :=
  ∀ c, a = .advance c → s.phase c = .clearing [] →
    s.disk.inode (tmp s.file) = none ∨ s.engine = .idle true

theorem valid_advance {c : Client} {s : System} (h : Valid s)
    (hcareful : Careful (.advance c) s) : Valid (advance c s) := by
  have hhome := h.setPhase c (home_ne_moving c)
  rw [advance]
  cases hphase : s.phase c with
  | idle => exact h
  | waiting id => exact h
  | returned => exact h
  | answered => exact h.setPhase c nofun
  | clearing old =>
      cases old with
      | cons name old =>
          exact ⟨h.consistent.remove name, moving_nil_update h.moving_nil c nofun⟩
      | nil =>
          simp only
          split
          · exact hhome
          · rename_i disk hrename
            have hidle : s.engine = .idle true :=
              (hcareful c rfl hphase).resolve_left
                (inode_ne_none_of_rename hrename)
            have hconsistent := h.consistent
            rw [hidle] at hconsistent
            have hrenamed := hconsistent.rename hrename
            rw [← hidle] at hrenamed
            exact ⟨hrenamed, moving_nil_update h.moving_nil c nofun⟩
  | renamed =>
      refine h.setPhase c ?_
      intro names hnames
      rw [← Phase.moving.inj hnames]
      exact h.consistent.sidecars_tmp
  | moving names =>
      obtain rfl := h.moving_nil c names hphase
      exact hhome
  | discarding =>
      exact ⟨h.consistent.remove s.file, moving_nil_update h.moving_nil c nofun⟩
  | discarded => exact h.setPhase c nofun
  | sweeping names =>
      cases names with
      | nil => exact hhome
      | cons name names =>
          exact ⟨h.consistent.remove name, moving_nil_update h.moving_nil c nofun⟩

theorem Valid.reply {s : System} (h : Valid s) (request : Request) {p : Phase}
    (hp : ∀ names, p = .moving names → names = []) :
    Valid (reply request p s) := by
  rw [SlotFiles.reply]
  split
  · exact h.setPhase _ hp
  · exact h

/-- What the engine does keeps the invariant whatever the clients do. -/
theorem valid_act {a : Action} {s : System} (h : Valid s)
    (hcareful : Careful a s) : Valid (act a s) := by
  rw [act.eq_def]
  split
  · exact h
  · cases a with
    | cancel => exact ⟨h.consistent, h.moving_nil⟩
    | kill => exact ⟨h.consistent, h.moving_nil⟩
    | request c output =>
        simp only
        split
        · exact ⟨h.consistent, moving_nil_update h.moving_nil c nofun⟩
        · exact h
    | giveUp c =>
        simp only
        split
        · exact h.setPhase c (home_ne_moving c)
        · exact h
    | drop => exact h.setPhase .saveNow nofun
    | begin =>
        simp only
        split
        · exact ⟨h.consistent.begin _, h.moving_nil⟩
        · exact h
    | write =>
        simp only
        split
        · rename_i hengine
          have hconsistent := h.consistent
          rw [hengine] at hconsistent
          exact ⟨hconsistent.write, h.moving_nil⟩
        · exact h
    | answer ok =>
        cases ok with
        | true =>
            simp only
            split
            · rename_i hengine
              have hconsistent := h.consistent
              rw [hengine] at hconsistent
              refine Valid.reply ?_ _ nofun
              exact ⟨hconsistent.answer, h.moving_nil⟩
            · exact h
        | false =>
            simp only
            split
            · refine Valid.reply ?_ _ (home_ne_moving _)
              exact ⟨h.consistent.fail, h.moving_nil⟩
            · exact h
    | restoreFails =>
        simp only
        split
        · exact h.setPhase .run nofun
        · exact h
    | stop =>
        simp only
        split
        · exact h.setPhase .run nofun
        · exact h
    | advance c => exact valid_advance h hcareful

/-- A start of the process: no one saves yet, and a file from before is
complete. A part of an earlier temporary file may be left. -/
structure Begins (s : System) : Prop where
  intact : Intact s
  phase_eq : ∀ c, s.phase c = .idle
  engine_eq : s.engine = .idle false
  no_sidecars : sidecars s.disk (tmp s.file) = []

theorem Begins.valid {s : System} (h : Begins s) : Valid s where
  consistent :=
    { intact := h.intact
      complete := by
        intro hengine
        rw [h.engine_eq] at hengine
        cases hengine
      writing := by
        intro request inode rest hengine
        rw [h.engine_eq] at hengine
        cases hengine
      no_sidecars := by
        intro name hstarts
        by_contra hname
        exact List.filter_eq_nil_iff.mp h.no_sidecars name
          ((mem_names_iff name).mpr hname) hstarts }
  moving_nil := by
    intro c names hphase
    rw [h.phase_eq] at hphase
    cases hphase

/-- In a run in which every rename is careful, the file is intact after every
action, and so at every kill. -/
theorem intact_of_careful {s : System} (h : Begins s) {actions : List Action}
    (hcareful : ∀ past a, past ++ [a] <+: actions →
      Careful a (run act past s)) {past : List Action} (hpast : past <+: actions) :
    Intact (run act past s) := by
  have hvalid : Valid (run act past s) := by
    revert past
    apply prefix_induct
    · exact h.valid
    · intro past a hpast ih
      rw [run_concat]
      exact valid_act ih (hcareful past a hpast)
  exact hvalid.consistent.intact

/-- A rename while the engine writes gives the file what is written so far. -/
theorem read_file_of_careless {s : System} (h : Valid s) {c : Client}
    (hphase : s.phase c = .clearing []) {request : Request} {inode : Nat}
    {rest : List (List UInt8)} (hengine : s.engine = .writing request inode rest)
    (htmp : s.disk.inode (tmp s.file) ≠ none) :
    ∃ bytes, (advance c s).disk.read s.file = some bytes ∧
      bytes ++ rest.flatten = request.output.flatten := by
  obtain ⟨hcontents, -, -, hinode⟩ := h.consistent.writing _ _ _ hengine
  obtain ⟨i, hi⟩ := Option.ne_none_iff_exists'.mp htmp
  obtain rfl := hinode i hi
  refine ⟨s.disk.contents i, ?_, hcontents⟩
  rw [advance, hphase]
  simp only
  split
  · rename_i hrename
    rw [Disk.rename] at hrename
    split at hrename
    · contradiction
    · cases hrename
  · rename_i disk hrename
    change disk.read s.file = _
    rw [read_rename hrename, if_pos rfl, Disk.read, hi]
    rfl

def firstStart : System :=
  { file := "m.slot"
    disk := Disk.empty String UInt8
    engine := .idle false
    queue := []
    nextId := 0
    phase := fun _ => .idle
    finished := []
    cancelled := false
    killed := false }

theorem begins_firstStart : Begins firstStart where
  intact := nofun
  phase_eq _ := rfl
  engine_eq := rfl
  no_sidecars := rfl

theorem careful_of_complete {a : Action} {s : System} (h : s.engine = .idle true) :
    Careful a s := fun _ _ _ => Or.inr h

theorem careful_of_not_advance {a : Action} {s : System}
    (h : ∀ c, a ≠ .advance c) : Careful a s := fun c ha _ => absurd ha (h c)

/-- The periodic save and then the one of the shutdown. -/
def bothSaves : List Action :=
  [.request .run [[1], [2]], .begin, .write, .write, .answer true,
    .advance .run, .advance .run, .advance .run, .advance .run, .cancel,
    .request .saveNow [[3], [4]], .begin, .write, .write, .answer true,
    .advance .saveNow, .advance .saveNow]

theorem intact_of_careful_bothSaves :
    (run act bothSaves firstStart).disk.read "m.slot" = some [3, 4] ∧
      Intact (run act bothSaves firstStart) := by
  refine ⟨by decide +kernel,
    intact_of_careful begins_firstStart ?_ (List.prefix_refl bothSaves)⟩
  simp only [bothSaves, forall_steps_cons]
  refine ⟨?_, ?_, ?_, ?_, ?_, ?_, ?_, ?_, ?_, ?_, ?_, ?_, ?_, ?_, ?_, ?_, ?_,
    forall_steps_nil⟩
  -- The steps on the files come after the answers.
  all_goals
    first
    | exact careful_of_complete rfl
    | exact careful_of_not_advance (by simp)

/-- The periodic save is answered; then the shutdown's save begins, and the
periodic one renames what it has written so far. -/
def shutdownDuringSave : List Action :=
  [.request .run [[1], [2]], .begin, .write, .write, .answer true, .cancel,
    .request .saveNow [[3], [4]], .begin, .write, .advance .run, .advance .run,
    .kill]

theorem not_intact_shutdownDuringSave :
    (run act shutdownDuringSave firstStart).disk.read "m.slot" = some [3] ∧
      (run act shutdownDuringSave firstStart).finished = [[1, 2]] ∧
      ¬Intact (run act shutdownDuringSave firstStart) := by
  have hread : (run act shutdownDuringSave firstStart).disk.read "m.slot" =
      some [3] := by decide
  have hfinished : (run act shutdownDuringSave firstStart).finished =
      [[1, 2]] := by decide
  refine ⟨hread, hfinished, ?_⟩
  intro h
  have hmem := h [3] hread
  rw [hfinished] at hmem
  exact absurd hmem (by decide)

end AssistantHub.SlotSaves
