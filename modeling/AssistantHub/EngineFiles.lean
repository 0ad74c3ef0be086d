import AssistantHub.EngineBooks
import AssistantHub.SlotFiles

namespace AssistantHub.EngineFiles

open AssistantHub.ChildRuns
open AssistantHub.CrashSteps
open AssistantHub.EngineBooks
open AssistantHub.EnginePlans
open AssistantHub.Engines
open AssistantHub.InodeFiles
open AssistantHub.RunPrefixes
open AssistantHub.SlotFiles
open AssistantHub.Supervision

def sanitize (c : Char) : Char :=
  if c.isAlphanum ∨ c = '.' ∨ c = '_' ∨ c = '-' then c else '_'

def engineTag : EngineKind → String
  | .llamaCpp => ""
  | .ik => "-ik"

/-- The saved prompt cache of one engine. -/
def slotFileFor (cfg : LlmConfig) (engine : EngineKind) : String :=
  String.ofList
    ((cfg.modelName ++ "-" ++ cfg.ctx.label ++ engineTag engine ++ ".slot").toList.map
      sanitize)

def slotFile (cfg : LlmConfig) : String := slotFileFor cfg .llamaCpp

/-- `SlotCache::file`: the file of the engine that is active now. -/
def cacheFile (cfg : LlmConfig) (active : EngineKind) : String :=
  if active = .ik then slotFileFor cfg .ik else slotFile cfg

/-- A save order at the engine. -/
structure Order where
  id : Nat
  client : Client
  file : String

inductive Sending where
  | unsent
  | save
  | restore
  deriving DecidableEq

/-- The supervisor with the engine that runs and the clients of the prompt
cache. `kind` is the engine that was active when the current call of a client
read the name of its file. `writer` says which program wrote a file, and
`restored` lists the restore requests, each with the program that got it. -/
structure Hub where
  cfg : LlmConfig
  sup : Supervisor LlmSpecs
  disk : SlotDisk
  phase : Client → SlotFiles.Phase
  kind : Client → EngineKind
  sending : Client → Sending
  nextId : Nat
  orders : List Order
  writer : Nat → String
  restored : List (String × String)

def Hub.file (h : Hub) (c : Client) : String := cacheFile h.cfg (h.kind c)

/-- What the file steps of a call see. -/
def Hub.view (h : Hub) (c : Client) : System :=
  { file := h.file c
    disk := h.disk
    engine := .idle false
    queue := []
    nextId := 0
    phase := h.phase
    finished := []
    cancelled := false
    killed := false }

def Hub.setPhase (h : Hub) (c : Client) (phase : SlotFiles.Phase) : Hub :=
  { h with phase := Function.update h.phase c phase }

inductive Act where
  | supervise (e : Event Seen)
  /-- A call reads the name of its file. -/
  | name (c : Client)
  /-- The request of the call reaches the engine, if one runs. -/
  | send (c : Client) (restore : Bool)
  | giveUp (c : Client)
  /-- The engine cannot restore the file. -/
  | refuse (c : Client)
  /-- The engine writes the temporary file of a save or a file next to it. -/
  | write (name : String)
  | answer (ok : Bool)
  | advance (c : Client)

def act (a : Act) (h : Hub) : Hub :=
  match a with
  | .supervise e =>
      let sup := Supervision.step LlmSpecs.source e h.sup
      { h with
        sup := sup
        -- The orders at an engine end with it.
        orders := if child sup.phase = none then [] else h.orders }
  | .name c =>
      if h.phase c = .idle then
        { h.setPhase c (.waiting h.nextId) with
          kind := Function.update h.kind c h.sup.source.active
          sending := Function.update h.sending c .unsent
          nextId := h.nextId + 1 }
      else h
  | .send c restore =>
      match h.phase c, h.sending c, child h.sup.phase with
      | .waiting id, .unsent, some spec =>
          if restore then
            { h with
              sending := Function.update h.sending c .restore
              restored := (spec.program, h.file c) :: h.restored }
          else
            { h with
              sending := Function.update h.sending c .save
              orders := h.orders ++ [⟨id, c, h.file c⟩] }
      | .waiting _, .unsent, none => h.setPhase c c.home
      | _, _, _ => h
  | .giveUp c =>
      match h.phase c with
      | .waiting _ => h.setPhase c c.home
      | _ => h
  | .refuse c =>
      match h.phase c, h.sending c with
      | .waiting _, .restore => h.setPhase c .discarding
      | _, _ => h
  | .write name =>
      match child h.sup.phase, h.orders with
      | some spec, order :: _ =>
          if name = tmp order.file ∨
              startsWith name (tmp order.file ++ ".") = true then
            let opened := h.disk.truncate name
            { h with
              disk := opened.1
              writer := Function.update h.writer opened.2 spec.program }
          else h
      | _, _ => h
  | .answer ok =>
      match h.orders with
      | order :: orders =>
          if h.phase order.client = .waiting order.id then
            { h.setPhase order.client
                (if ok then .answered else order.client.home) with
              orders := orders }
          else { h with orders := orders }
      | [] => h
  | .advance c =>
      let v := SlotFiles.advance c (h.view c)
      { h with disk := v.disk, phase := v.phase }

/-- The call of the client has not ended. -/
def Open (h : Hub) (c : Client) : Prop :=
  h.phase c ≠ .idle ∧ h.phase c ≠ .returned

theorem open_of_phase {h : Hub} {c : Client} {phase : SlotFiles.Phase}
    (hphase : h.phase c = phase) (hidle : phase ≠ .idle)
    (hreturned : phase ≠ .returned) : Open h c := by
  rw [Open, hphase]
  exact ⟨hidle, hreturned⟩

/-- No engine starts while a call of the prompt cache is open. -/
def Undisturbed (a : Act) (h : Hub) : Prop :=
  a = .supervise .spawn → ∀ c, ¬Open h c

/-- The file is the slot file of the engine or lies next to it. -/
def Belongs (cfg : LlmConfig) (kind : EngineKind) (name : String) : Prop :=
  name = slotFileFor cfg kind ∨
    startsWith name (slotFileFor cfg kind ++ ".") = true

theorem cacheFile_eq (cfg : LlmConfig) (active : EngineKind) :
    cacheFile cfg active = slotFileFor cfg active := by
  cases active <;> rfl

theorem startsWith_append (file suffix : String) :
    startsWith (file ++ suffix) file = true := by
  rw [startsWith, String.toList_append, List.isPrefixOf_iff_prefix]
  exact List.prefix_append _ _

theorem startsWith_tmp (file : String) :
    startsWith (tmp file) (file ++ ".") = true := by
  have hsplit : tmp file = file ++ "." ++ "tmp" := by
    rw [tmp, String.append_assoc]
    rfl
  rw [hsplit]
  exact startsWith_append _ _

theorem startsWith_trans {a b c : String} (h : startsWith a b = true)
    (h' : startsWith b c = true) : startsWith a c = true := by
  rw [startsWith, List.isPrefixOf_iff_prefix] at *
  exact h'.trans h

theorem startsWith_of_append {name start suffix : String}
    (h : startsWith name (start ++ suffix) = true) :
    startsWith name start = true :=
  startsWith_trans h (startsWith_append start suffix)

theorem Belongs.startsWith {cfg : LlmConfig} {kind : EngineKind} {name : String}
    (h : Belongs cfg kind name) :
    startsWith name (slotFileFor cfg kind) = true := by
  rcases h with rfl | h
  · exact List.isPrefixOf_iff_prefix.mpr List.prefix_rfl
  · exact startsWith_of_append h

/-- The two engines share no file: their names differ in the character after
the context size. -/
theorem Belongs.unique {cfg : LlmConfig} {kind kind' : EngineKind}
    {name : String} (h : Belongs cfg kind name) (h' : Belongs cfg kind' name) :
    kind = kind' := by
  have hget : ∀ engine, SlotFiles.startsWith name (slotFileFor cfg engine) = true →
      name.toList[(cfg.modelName ++ "-" ++ cfg.ctx.label).toList.length]? =
        some (if engine = .ik then '-' else '.') := by
    intro engine hstarts
    rw [SlotFiles.startsWith, List.isPrefixOf_iff_prefix] at hstarts
    obtain ⟨rest, hrest⟩ := hstarts
    rw [← hrest, slotFileFor, String.toList_ofList, String.toList_append,
      String.toList_append, List.append_assoc, List.map_append,
      List.append_assoc, List.getElem?_append_right (by rw [List.length_map]),
      List.length_map, Nat.sub_self]
    cases engine with
    | llamaCpp => rfl
    | ik => rfl
  have hfirst := hget kind h.startsWith
  rw [hget kind' h'.startsWith] at hfirst
  cases kind <;> cases kind' <;> simp at hfirst ⊢

/-- The engine that wrote a slot file or a file next to it is its own. -/
def OwnFiles (h : Hub) : Prop :=
  ∀ name i, h.disk.inode name = some i → ∀ kind, Belongs h.cfg kind name →
    h.writer i = h.cfg.program kind

/-- The slot file of an engine is only sent to it. -/
def OwnRestores (h : Hub) : Prop :=
  ∀ p ∈ h.restored, ∀ kind, p.2 = slotFileFor h.cfg kind →
    p.1 = h.cfg.program kind

structure Owned (h : Hub) : Prop where
  books : Agrees h.cfg h.sup
  calls : ∀ c, Open h c → ∀ spec, child h.sup.phase = some spec →
    spec.program = h.cfg.program (h.kind c)
  orders : ∀ o ∈ h.orders, ∃ kind, o.file = slotFileFor h.cfg kind ∧
    ∀ spec, child h.sup.phase = some spec → spec.program = h.cfg.program kind
  no_orders : child h.sup.phase = none → h.orders = []
  moving : ∀ c names, h.phase c = .moving names →
    ∀ n ∈ names, startsWith n (tmp (h.file c) ++ ".") = true
  files : OwnFiles h
  restores : OwnRestores h

theorem spawn_of_child {s : Supervisor LlmSpecs} {e : Event Seen}
    {spec : ChildSpec} (hnone : child s.phase = none)
    (hsome : child (Supervision.step LlmSpecs.source e s).phase = some spec) :
    e = .spawn := by
  rcases child_next (next_step LlmSpecs.source e s) hsome with hold | hphase
  · rw [hnone] at hold
    cases hold
  · cases e with
    | spawn => rfl
    | spawnFails ran =>
        rw [Supervision.step.eq_def, hphase] at hsome
        cases hsome
    | plan | count | probe | exits | stops | closes | rested | cancel =>
        rw [Supervision.step.eq_def, hphase] at hsome
        simp only at hsome
        rw [hnone] at hsome
        cases hsome

theorem Owned.supervise {h : Hub} (ho : Owned h) {e : Event Seen}
    (hcalm : Undisturbed (.supervise e) h) : Owned (act (.supervise e) h) where
  books := ho.books.next (next_step LlmSpecs.source e h.sup)
  calls := by
    intro c hopen spec hspec
    match hchild : child h.sup.phase with
    | none =>
        obtain rfl := spawn_of_child hchild hspec
        exact absurd hopen (hcalm rfl c)
    | some old =>
        rcases child_next (next_step LlmSpecs.source e h.sup) hspec with
          hsame | hphase
        · exact ho.calls c hopen spec hsame
        · rw [hphase] at hchild
          cases hchild
  orders := by
    intro o hmem
    simp only [act] at hmem
    split at hmem
    · cases hmem
    · obtain ⟨kind, hfile, hprogram⟩ := ho.orders o hmem
      refine ⟨kind, hfile, ?_⟩
      intro spec hspec
      rcases child_next (next_step LlmSpecs.source e h.sup) hspec with
        hsame | hphase
      · exact hprogram spec hsame
      · have hnone : child h.sup.phase = none := by rw [hphase]; rfl
        rw [ho.no_orders hnone] at hmem
        cases hmem
  no_orders := fun hnone => if_pos hnone
  moving := ho.moving
  files := ho.files
  restores := ho.restores

/-- A step that leaves the files, the engine and what it got alone. -/
theorem Owned.setPhase {h : Hub} (ho : Owned h) (c : Client)
    {phase : SlotFiles.Phase}
    (hmoving : ∀ names, phase = .moving names →
      ∀ n ∈ names, startsWith n (tmp (h.file c) ++ ".") = true)
    (hopen : (phase ≠ .idle ∧ phase ≠ .returned) → Open h c) :
    Owned (h.setPhase c phase) where
  books := ho.books
  calls := by
    rintro c' ⟨hidle, hreturned⟩
    simp only [Hub.setPhase, Function.update_apply] at hidle hreturned
    split at hidle
    · rename_i heq
      rw [if_pos heq] at hreturned
      rw [heq]
      exact ho.calls c (hopen ⟨hidle, hreturned⟩)
    · rename_i hne
      rw [if_neg hne] at hreturned
      exact ho.calls c' ⟨hidle, hreturned⟩
  orders := ho.orders
  no_orders := ho.no_orders
  moving := by
    intro c' names heq
    simp only [Hub.setPhase, Function.update_apply] at heq
    split at heq
    · rename_i hsame
      rw [hsame]
      exact hmoving names heq
    · exact ho.moving c' names heq
  files := ho.files
  restores := ho.restores

theorem home_ne_moving (c : Client) (names : List String) :
    c.home ≠ .moving names := by
  cases c <;> exact nofun

theorem home_closed (c : Client) :
    ¬(c.home ≠ .idle ∧ c.home ≠ .returned) := by
  cases c with
  | run => exact fun h => h.1 rfl
  | saveNow => exact fun h => h.2 rfl

theorem Owned.goHome {h : Hub} (ho : Owned h) (c : Client) :
    Owned (h.setPhase c c.home) :=
  ho.setPhase c (fun names hhome => absurd hhome (home_ne_moving c names))
    fun hopen => absurd hopen (home_closed c)

theorem Owned.name {h : Hub} (ho : Owned h) (c : Client) :
    Owned (act (.name c) h) := by
  simp only [act]
  split
  · refine
      { books := ho.books
        calls := ?_
        orders := ho.orders
        no_orders := ho.no_orders
        moving := ?_
        files := ho.files
        restores := ho.restores }
    · rintro c' ⟨hidle, hreturned⟩ spec hspec
      simp only [Hub.setPhase, Function.update_apply] at hidle hreturned ⊢
      split
      · exact (ho.books.engine spec (spec_of_child hspec)).1
      · rename_i hne
        rw [if_neg hne] at hidle hreturned
        exact ho.calls c' ⟨hidle, hreturned⟩ spec hspec
    · intro c' names heq
      simp only [Hub.setPhase, Function.update_apply] at heq
      split at heq
      · cases heq
      · rename_i hne
        simp only [Hub.file, Function.update_of_ne hne]
        exact ho.moving c' names heq
  · exact ho

theorem Owned.send {h : Hub} (ho : Owned h) (c : Client) (restore : Bool) :
    Owned (act (.send c restore) h) := by
  simp only [act]
  split
  · rename_i id spec hphase hsending hchild
    have hopen : Open h c := open_of_phase hphase nofun nofun
    have hprogram := ho.calls c hopen spec hchild
    split
    · refine { ho with restores := ?_ }
      intro p hp kind hfile
      rcases List.mem_cons.mp hp with rfl | hp
      · have hkind : h.kind c = kind := by
          have hbelongs : Belongs h.cfg (h.kind c) (h.file c) :=
            Or.inl (cacheFile_eq h.cfg _)
          exact hbelongs.unique (Or.inl hfile)
        rw [← hkind]
        exact hprogram
      · exact ho.restores p hp kind hfile
    · refine { ho with orders := ?_, no_orders := ?_ }
      · intro o hmem
        rcases List.mem_append.mp hmem with hmem | hmem
        · exact ho.orders o hmem
        · rw [List.mem_singleton.mp hmem]
          refine ⟨h.kind c, cacheFile_eq h.cfg _, ?_⟩
          intro spec' hspec'
          rw [hchild] at hspec'
          rw [← Option.some.inj hspec']
          exact hprogram
      · intro hnone
        rw [hchild] at hnone
        cases hnone
  · exact ho.goHome c
  · exact ho

theorem Owned.write {h : Hub} (ho : Owned h) (name : String) :
    Owned (act (.write name) h) := by
  simp only [act]
  split
  · rename_i spec order orders hchild horders
    split
    · rename_i hname
      obtain ⟨owner, hfile, hprogram⟩ := ho.orders order (by rw [horders]; simp)
      have hbelongs : Belongs h.cfg owner name := by
        right
        rw [← hfile]
        have htmp := startsWith_tmp order.file
        rcases hname with rfl | hname
        · exact htmp
        · exact startsWith_trans (startsWith_of_append hname) htmp
      refine { ho with files := ?_ }
      intro n i hi kind hkind
      simp only [inode_truncate] at hi
      split at hi
      · rename_i heq
        subst heq
        obtain rfl := Option.some.inj hi
        obtain rfl := hbelongs.unique hkind
        simp only [Function.update_self]
        exact hprogram spec hchild
      · rename_i hne
        have hother : i ≠ (h.disk.truncate name).2 := by
          rintro rfl
          exact inode_ne_truncate hne hi
        simp only [Function.update_of_ne hother]
        exact ho.files n i hi kind hkind
    · exact ho
  · exact ho

theorem Owned.answer {h : Hub} (ho : Owned h) (ok : Bool) :
    Owned (act (.answer ok) h) := by
  simp only [act]
  split
  · rename_i order orders horders
    have hrest : Owned { h with orders := orders } := by
      refine { ho with orders := ?_, no_orders := ?_ }
      · intro o hmem
        exact ho.orders o (by rw [horders]; exact List.mem_cons_of_mem _ hmem)
      · intro hnone
        have hnil := ho.no_orders hnone
        rw [horders] at hnil
        cases hnil
    split
    · rename_i hphase
      have hopen : Open { h with orders := orders } order.client :=
        open_of_phase hphase nofun nofun
      cases ok with
      | true => exact hrest.setPhase order.client nofun fun _ => hopen
      | false => exact hrest.goHome order.client
    · exact hrest
  · exact ho

/-- The disk changes as the files of one engine do. -/
theorem Owned.setDisk {h : Hub} (ho : Owned h) {disk : SlotDisk}
    (hdisk : ∀ name i, disk.inode name = some i →
      h.disk.inode name = some i ∨
        ∃ source, h.disk.inode source = some i ∧
          ∀ kind, Belongs h.cfg kind name → Belongs h.cfg kind source) :
    Owned { h with disk := disk } := by
  refine { ho with files := ?_ }
  intro name i hi kind hkind
  rcases hdisk name i hi with hsame | ⟨source, hsource, hbelongs⟩
  · exact ho.files name i hsame kind hkind
  · exact ho.files source i hsource kind (hbelongs kind hkind)

theorem Owned.remove {h : Hub} (ho : Owned h) (name : String) :
    Owned { h with disk := h.disk.remove name } := by
  refine ho.setDisk ?_
  intro n i hi
  rw [inode_remove] at hi
  split at hi
  · cases hi
  · exact Or.inl hi

theorem Owned.rename {h : Hub} (ho : Owned h) {source target : String}
    {disk : SlotDisk} (hrename : h.disk.rename source target = some disk)
    (hbelongs : ∀ kind, Belongs h.cfg kind target → Belongs h.cfg kind source) :
    Owned { h with disk := disk } := by
  refine ho.setDisk ?_
  intro n i hi
  rw [inode_rename hrename] at hi
  split at hi
  · rename_i heq
    exact Or.inr ⟨source, hi, heq ▸ hbelongs⟩
  · split at hi
    · cases hi
    · exact Or.inl hi

theorem belongs_of_sidecar {cfg : LlmConfig} {kind : EngineKind} {name : String}
    (h : startsWith name (tmp (slotFileFor cfg kind) ++ ".") = true) :
    Belongs cfg kind name := by
  right
  have hsplit : tmp (slotFileFor cfg kind) ++ "." =
      slotFileFor cfg kind ++ "." ++ "tmp." := by
    rw [tmp, String.append_assoc, String.append_assoc]
    rfl
  rw [hsplit] at h
  exact startsWith_of_append h

/-- A file of the temporary name goes to a file of the same engine. -/
theorem belongs_moved {cfg : LlmConfig} {kind : EngineKind} {name : String}
    (h : startsWith name (tmp (slotFileFor cfg kind) ++ ".") = true) :
    Belongs cfg kind
      (slotFileFor cfg kind ++
        String.ofList (name.toList.drop (tmp (slotFileFor cfg kind)).length)) := by
  right
  rw [startsWith, List.isPrefixOf_iff_prefix] at h ⊢
  obtain ⟨rest, hrest⟩ := h
  have hdrop : name.toList.drop (tmp (slotFileFor cfg kind)).length =
      ".".toList ++ rest := by
    rw [← hrest, String.toList_append, List.append_assoc, ← String.length_toList,
      List.drop_left]
  rw [hdrop]
  exact ⟨rest, by simp⟩

theorem Owned.advance {h : Hub} (ho : Owned h) (c : Client) :
    Owned (act (.advance c) h) := by
  have hfile : h.file c = slotFileFor h.cfg (h.kind c) := cacheFile_eq _ _
  have hown : ∀ {source target : String}, Belongs h.cfg (h.kind c) source →
      Belongs h.cfg (h.kind c) target →
        ∀ kind, Belongs h.cfg kind target → Belongs h.cfg kind source := by
    intro source target hsource htarget kind hkind
    rw [hkind.unique htarget]
    exact hsource
  simp only [act, SlotFiles.advance, Hub.view]
  cases hphase : h.phase c with
  | idle => exact ho
  | waiting id => exact ho
  | returned => exact ho
  | answered =>
      exact ho.setPhase c nofun fun _ => open_of_phase hphase nofun nofun
  | clearing old =>
      have hopen : Open h c := open_of_phase hphase nofun nofun
      cases old with
      | cons name old => exact (ho.remove name).setPhase c nofun fun _ => hopen
      | nil =>
          simp only
          split
          · exact ho.goHome c
          · rename_i disk hrename
            refine (ho.rename hrename ?_).setPhase c nofun fun _ => hopen
            refine hown (Or.inr ?_) (Or.inl hfile)
            rw [hfile]
            exact startsWith_tmp _
  | renamed =>
      refine ho.setPhase c ?_ fun _ => open_of_phase hphase nofun nofun
      intro names hnames n hn
      rw [← Phase.moving.inj hnames] at hn
      exact (List.mem_filter.mp hn).2
  | moving names =>
      have hopen : Open h c := open_of_phase hphase nofun nofun
      have hnames := ho.moving c names hphase
      cases names with
      | nil => exact ho.goHome c
      | cons name names =>
          have hname := hnames name List.mem_cons_self
          simp only
          split
          · exact ho.goHome c
          · rename_i disk hrename
            refine (ho.rename hrename ?_).setPhase c ?_ fun _ => hopen
            · rw [hfile] at hname ⊢
              exact hown (belongs_of_sidecar hname) (belongs_moved hname)
            · intro names' heq n hn
              rw [← Phase.moving.inj heq] at hn
              exact hnames n (List.mem_cons_of_mem name hn)
  | discarding =>
      exact (ho.remove (h.file c)).setPhase c nofun fun _ =>
        open_of_phase hphase nofun nofun
  | discarded =>
      exact ho.setPhase c nofun fun _ => open_of_phase hphase nofun nofun
  | sweeping names =>
      cases names with
      | nil => exact ho.goHome c
      | cons name names =>
          exact (ho.remove name).setPhase c nofun fun _ =>
            open_of_phase hphase nofun nofun

theorem Owned.act {h : Hub} (ho : Owned h) {a : Act} (hcalm : Undisturbed a h) :
    Owned (act a h) := by
  cases a with
  | supervise e => exact ho.supervise hcalm
  | name c => exact ho.name c
  | send c restore => exact ho.send c restore
  | giveUp c =>
      simp only [EngineFiles.act]
      split
      · exact ho.goHome c
      · exact ho
  | refuse c =>
      simp only [EngineFiles.act]
      split
      · rename_i hphase hsending
        exact ho.setPhase c nofun fun _ => open_of_phase hphase nofun nofun
      · exact ho
  | write name => exact ho.write name
  | answer ok => exact ho.answer ok
  | advance c => exact ho.advance c

/-- A start of the hub over the files of earlier runs. -/
structure Begins (cfg : LlmConfig) (host : Host) (h : Hub) : Prop where
  cfg_eq : h.cfg = cfg
  sup_eq : h.sup = Supervisor.start (setup cfg host)
  phase_eq : ∀ c, h.phase c = .idle
  orders_eq : h.orders = []
  restored_eq : h.restored = []
  files : OwnFiles h

theorem Begins.owned {cfg : LlmConfig} {host : Host} {h : Hub}
    (hb : Begins cfg host h) : Owned h where
  books := by
    rw [hb.cfg_eq, hb.sup_eq]
    exact Agrees.start cfg host
  calls := by
    rintro c ⟨hidle, -⟩
    exact absurd (hb.phase_eq c) hidle
  orders := by
    rw [hb.orders_eq]
    exact nofun
  no_orders := fun _ => hb.orders_eq
  moving := by
    intro c names hphase
    rw [hb.phase_eq] at hphase
    cases hphase
  files := hb.files
  restores := by
    rw [OwnRestores, hb.restored_eq]
    exact nofun

theorem owned_of_undisturbed {cfg : LlmConfig} {host : Host} {h : Hub}
    (hb : Begins cfg host h) {acts : List Act}
    (hcalm : ∀ past a, past ++ [a] <+: acts → Undisturbed a (run act past h))
    {past : List Act} (hpast : past <+: acts) : Owned (run act past h) := by
  revert past
  apply prefix_induct
  · exact hb.owned
  · intro past a hpast ih
    rw [run_concat]
    exact ih.act (hcalm past a hpast)

theorem program_eq_ikBin_iff {cfg : LlmConfig} (h : cfg.ikBin ≠ cfg.serverBin)
    (kind : EngineKind) : cfg.program kind = cfg.ikBin ↔ kind = .ik := by
  cases kind with
  | llamaCpp => exact ⟨fun heq => absurd heq.symm h, nofun⟩
  | ik => exact ⟨fun _ => rfl, fun _ => rfl⟩

/-- While a child runs, its program, the active engine and the engine that is
charged next agree, and the counter shows every start but one that was just made.
In a run without a start of an engine during a call, each slot file is only
written by its own engine and only sent to it. -/
theorem engines_and_files_agree (cfg : LlmConfig) (host : Host) :
    (∀ events, let s := supervised LlmSpecs.source events (setup cfg host)
      (∀ spec, child s.phase = some spec →
        spec.program = cfg.program s.source.active ∧
          s.source.last = some s.source.active ∧
            (cfg.ikBin ≠ cfg.serverBin →
              (spec.program = cfg.ikBin ↔ s.source.active = .ik))) ∧
        s.starts + uncounted s.phase = s.spawns) ∧
      ∀ h, Begins cfg host h → ∀ acts,
        (∀ past a, past ++ [a] <+: acts → Undisturbed a (run act past h)) →
          ∀ past, past <+: acts →
            OwnFiles (run act past h) ∧ OwnRestores (run act past h) := by
  constructor
  · intro events
    have hagrees : Agrees cfg
        (supervised LlmSpecs.source events (setup cfg host)) := by
      refine run_invariant (p := Agrees cfg) ?_ events (Agrees.start cfg host)
      intro e s hs
      exact hs.next (next_step LlmSpecs.source e s)
    refine ⟨?_, hagrees.counted⟩
    intro spec hspec
    obtain ⟨hprogram, hlast⟩ := hagrees.engine spec (spec_of_child hspec)
    refine ⟨hprogram, hlast, ?_⟩
    intro hdiffer
    rw [hprogram]
    exact program_eq_ikBin_iff hdiffer _
  · intro h hb acts hcalm past hpast
    have howned := owned_of_undisturbed hb hcalm hpast
    exact ⟨howned.files, howned.restores⟩

/-- Both programs are configured as the same file. -/
def oneBinary : LlmConfig :=
  { serverBin := "/opt/ik_llama.cpp/llama-server"
    ikBin := "/opt/ik_llama.cpp/llama-server"
    engine := .llamaCpp
    modelName := "Ling-3.0-tiny-Q4_K_M"
    family := .ling3
    device := "none"
    ctx := .k64
    internalPort := 8081 }

/-- llama.cpp runs the binary of ik_llama.cpp when both settings name it, and
right after a spawn the counter lags behind. -/
theorem not_agrees_oneBinary :
    let seen : Seen := { model := some ⟨some "bailingmoe3"⟩, ikBinary := true }
    let s := supervised LlmSpecs.source [.plan seen, .spawn]
      (setup oneBinary ⟨"flags : avx2 fma"⟩)
    (child s.phase).map ChildSpec.program = some oneBinary.ikBin ∧
      s.source.active = .llamaCpp ∧ s.starts = 0 ∧ s.spawns = 1 :=
  ⟨rfl, rfl, rfl, rfl⟩

def twoBinaries : LlmConfig :=
  { oneBinary with
    serverBin := "/opt/llama.cpp/llama-server"
    engine := .auto }

def firstStart : Hub :=
  { cfg := twoBinaries
    sup := Supervisor.start (setup twoBinaries ⟨"flags : avx2 fma"⟩)
    disk := Disk.empty String UInt8
    phase := fun _ => .idle
    kind := fun _ => .llamaCpp
    sending := fun _ => .unsent
    nextId := 0
    orders := []
    writer := fun _ => ""
    restored := [] }

/-- ik_llama.cpp starts, and its cache is saved. -/
def ikSave : List Act :=
  [.supervise (.plan ⟨some ⟨some "bailingmoe3"⟩, true⟩), .supervise .spawn,
    .name .run, .send .run false,
    .write "Ling-3.0-tiny-Q4_K_M-64k-ik.slot.tmp", .answer true, .advance .run,
    .advance .run]

theorem engines_and_files_agree_ikSave :
    (run act ikSave firstStart).disk.names =
        ["Ling-3.0-tiny-Q4_K_M-64k-ik.slot"] ∧
      OwnFiles (run act ikSave firstStart) := by
  refine ⟨by decide, ?_⟩
  refine ((engines_and_files_agree twoBinaries ⟨"flags : avx2 fma"⟩).2 firstStart
    ⟨rfl, rfl, fun _ => rfl, rfl, rfl, nofun⟩ ikSave ?_ ikSave
    List.prefix_rfl).1
  rintro past a ⟨rest, hrest⟩ rfl c
  -- The engine starts before the first call.
  rcases past with _ | ⟨a₁, _ | ⟨a₂, past⟩⟩
  all_goals simp [ikSave] at hrest
  · obtain ⟨rfl, -⟩ := hrest
    exact fun hopen => hopen.1 rfl
  · have hmem : Act.supervise .spawn ∈ past ++ .supervise .spawn :: rest := by
      simp
    rw [hrest.2.2] at hmem
    simp at hmem

end AssistantHub.EngineFiles
