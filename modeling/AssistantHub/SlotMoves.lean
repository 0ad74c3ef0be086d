import AssistantHub.RenameChains
import AssistantHub.SlotSaves
import Mathlib.Logic.Function.Iterate

namespace AssistantHub.SlotMoves

open AssistantHub.InodeFiles
open AssistantHub.KeyedTable
open AssistantHub.RenameChains
open AssistantHub.SlotFiles
open AssistantHub.SlotSaves

/-- The prompt cache file and the files next to it. Those of the temporary
file do not count. -/
def Counted (file name : String) : Prop :=
  name = file ∨
    startsWith name (file ++ ".") = true ∧ name ≠ tmp file ∧
      ¬startsWith name (tmp file ++ ".") = true

instance (file name : String) : Decidable (Counted file name) := by
  unfold Counted
  infer_instance

/-- The new name of a file of the new save. -/
def target (file name : String) : String :=
  file ++ String.ofList (name.toList.drop (tmp file).length)

/-- The files of the previous save that `move_with_sidecars` removes. -/
def old (s : System) : List String :=
  (sidecars s.disk s.file).filter fun name =>
    name ≠ tmp s.file && !startsWith name (tmp s.file ++ ".")

/-- The files that the engine wrote next to the temporary file. -/
def new (s : System) : List String := sidecars s.disk (tmp s.file)

def OfPrevious (s : System) (disk : SlotDisk) : Prop :=
  ∀ name, Counted s.file name → disk.inode name = s.disk.inode name

def OfNew (s : System) (disk : SlotDisk) : Prop :=
  ∀ suffix, Counted s.file (s.file ++ suffix) →
    disk.inode (s.file ++ suffix) = s.disk.inode (tmp s.file ++ suffix)

/-- If there is a prompt cache file, it and the files next to it are all of one
save. -/
def OneSave (s : System) (disk : SlotDisk) : Prop :=
  disk.inode s.file ≠ none → OfPrevious s disk ∨ OfNew s disk

/-- No file of the new save is moved over another one that is still to come. -/
def InOrder (s : System) : Prop :=
  (new s).Pairwise fun name later =>
    Counted s.file (target s.file later) → target s.file name ≠ later

/-- The save is killed before the first file goes away, or all that counts has
been moved. Without a previous file, also before the rename. -/
def Spared (s : System) (k : Nat) : Prop :=
  k ≤ 1 ∨
    s.disk.inode s.file = none ∧ k ≤ 1 + (old s).length ∨
    2 + (old s).length ≤ k ∧ InOrder s ∧
      ∀ name ∈ (new s).drop (k - (3 + (old s).length)),
        ¬Counted s.file (target s.file name)

instance (s : System) : Decidable (InOrder s) := by
  unfold InOrder
  infer_instance

instance (s : System) (k : Nat) : Decidable (Spared s k) := by
  unfold Spared
  infer_instance

theorem startsWith_iff (name start : String) :
    startsWith name start = true ↔ ∃ rest, name = start ++ rest := by
  rw [startsWith, List.isPrefixOf_iff_prefix]
  constructor
  · rintro ⟨rest, h⟩
    exact ⟨String.ofList rest, String.toList_inj.mp (by simp [h])⟩
  · rintro ⟨rest, rfl⟩
    exact ⟨rest.toList, by simp⟩

theorem target_tmp (file suffix : String) :
    target file (tmp file ++ suffix) = file ++ suffix := by
  rw [target, String.toList_append, ← String.length_toList, List.drop_left,
    String.ofList_toList]

theorem append_inj {start first second : String}
    (h : start ++ first = start ++ second) : first = second := by
  have hlist := congrArg String.toList h
  rw [String.toList_append, String.toList_append, List.append_cancel_left_eq]
    at hlist
  exact String.toList_inj.mp hlist

theorem target_inj {file name other : String}
    (hname : startsWith name (tmp file ++ ".") = true)
    (hother : startsWith other (tmp file ++ ".") = true)
    (h : target file name = target file other) : name = other := by
  obtain ⟨rest, rfl⟩ := (startsWith_iff _ _).mp hname
  obtain ⟨rest', rfl⟩ := (startsWith_iff _ _).mp hother
  rw [String.append_assoc, String.append_assoc, target_tmp, target_tmp] at h
  rw [String.append_assoc, String.append_assoc, append_inj h]

theorem target_ne_file {file name : String}
    (hname : startsWith name (tmp file ++ ".") = true) :
    target file name ≠ file := by
  obtain ⟨rest, rfl⟩ := (startsWith_iff _ _).mp hname
  rw [String.append_assoc, target_tmp]
  intro h
  have hlength := congrArg String.length h
  have hdot : ".".length = 1 := rfl
  rw [String.length_append, String.length_append] at hlength
  omega

theorem not_counted_of_startsWith {file name : String}
    (hname : startsWith name (tmp file ++ ".") = true) : ¬Counted file name := by
  rintro (rfl | h)
  · exact not_startsWith_file name hname
  · exact h.2.2 hname

theorem not_counted_tmp (file : String) : ¬Counted file (tmp file) := by
  rintro (h | h)
  · exact file_ne_tmp file h.symm
  · exact h.2.1 rfl

section Listings

variable {d : SlotDisk} {file name : String}

theorem mem_sidecars :
    name ∈ sidecars d file ↔
      d.inode name ≠ none ∧ startsWith name (file ++ ".") = true := by
  rw [sidecars, List.mem_filter, mem_names_iff]

theorem sidecars_remove (h : ¬startsWith name (file ++ ".") = true) :
    sidecars (d.remove name) file = sidecars d file := by
  simp only [sidecars, Disk.names, Disk.remove, Table.erase, List.filter_map,
    List.filter_filter]
  congr 1
  apply List.filter_congr
  intro row _
  by_cases hrow : row.1 = name <;> simp_all

theorem sidecars_rename {d' : SlotDisk} {source dest : String}
    (hrename : d.rename source dest = some d')
    (hsource : ¬startsWith source (file ++ ".") = true)
    (hdest : ¬startsWith dest (file ++ ".") = true) :
    sidecars d' file = sidecars d file := by
  rw [Disk.rename] at hrename
  split at hrename
  · cases hrename
  · rename_i i hi
    obtain rfl := Option.some.inj hrename
    have hput : ((d.dir.erase [source]).put (dest, i)).rows.map Prod.fst =
        if dest ∈ (d.dir.erase [source]).rows.map Prod.fst then
          (d.dir.erase [source]).rows.map Prod.fst
        else (d.dir.erase [source]).rows.map Prod.fst ++ [dest] :=
      map_key_putRows Prod.fst (dest, i) _
    have hremove := sidecars_remove (d := d) hsource
    simp only [sidecars, Disk.names, Disk.remove] at hremove ⊢
    rw [hput, ← hremove]
    split
    · rfl
    · simp [List.filter_append, hdest]

theorem not_mem_take_getElem {names : List String} (h : names.Nodup) {i : Nat}
    (hi : i < names.length) : names[i] ∉ names.take i := by
  intro hmem
  obtain ⟨j, hj, heq⟩ := List.mem_take_iff_getElem.mp hmem
  have := (List.Nodup.getElem_inj_iff h).mp heq
  omega

theorem nodup_sidecars : (sidecars d file).Nodup :=
  d.dir.nodup.filter _

end Listings

section Steps

variable {s : System} {c : Client}

/-- The system while a client moves its files. -/
def moving (s : System) (c : Client) (phase : Phase) (disk : SlotDisk) : System :=
  { s.setPhase c phase with disk := disk }

theorem setPhase_moving (phase phase' : Phase) (disk disk' : SlotDisk) :
    { (moving s c phase disk).setPhase c phase' with disk := disk' } =
      moving s c phase' disk' := by
  simp [moving, System.setPhase]

theorem disk_moving (phase : Phase) (disk : SlotDisk) :
    (moving s c phase disk).disk = disk := rfl

theorem file_moving (phase : Phase) (disk : SlotDisk) :
    (moving s c phase disk).file = s.file := rfl

theorem phase_moving (phase : Phase) (disk : SlotDisk) :
    (moving s c phase disk).phase c = phase := by
  simp [moving, System.setPhase]

theorem advance_answered (hphase : s.phase c = .answered) :
    advance c s = moving s c (.clearing (old s)) s.disk := by
  rw [advance, hphase]
  rfl

theorem advance_clearing (name : String) (names : List String)
    (disk : SlotDisk) :
    advance c (moving s c (.clearing (name :: names)) disk) =
      moving s c (.clearing names) (disk.remove name) := by
  rw [advance, phase_moving]
  exact setPhase_moving _ _ _ _

theorem advance_cleared {disk disk' : SlotDisk}
    (hrename : disk.rename (tmp s.file) s.file = some disk') :
    advance c (moving s c (.clearing []) disk) = moving s c .renamed disk' := by
  rw [advance, phase_moving]
  simp only [disk_moving, file_moving, hrename]
  exact setPhase_moving _ _ _ _

theorem advance_renamed (disk : SlotDisk) :
    advance c (moving s c .renamed disk) =
      moving s c (.moving (sidecars disk (tmp s.file))) disk := by
  rw [advance, phase_moving]
  exact setPhase_moving _ _ _ _

theorem advance_moving {name : String} {disk disk' : SlotDisk}
    (hrename : disk.rename name (target s.file name) = some disk')
    (names : List String) :
    advance c (moving s c (.moving (name :: names)) disk) =
      moving s c (.moving names) disk' := by
  rw [target] at hrename
  rw [advance, phase_moving]
  simp only [disk_moving, file_moving, hrename]
  exact setPhase_moving _ _ _ _

theorem advance_moved (disk : SlotDisk) :
    advance c (moving s c (.moving []) disk) = moving s c c.home disk := by
  rw [advance, phase_moving]
  exact setPhase_moving _ _ _ _

theorem advance_home (disk : SlotDisk) :
    advance c (moving s c c.home disk) = moving s c c.home disk := by
  rw [advance, phase_moving]
  cases c <;> rfl

theorem clearing_reached (hphase : s.phase c = .answered) {i : Nat}
    (hi : i ≤ (old s).length) :
    ∃ disk, (advance c)^[1 + i] s = moving s c (.clearing ((old s).drop i)) disk ∧
      disk.contents = s.disk.contents ∧
      disk.inode = gone ((old s).take i) s.disk.inode ∧
      sidecars disk (tmp s.file) = new s := by
  induction i with
  | zero =>
      refine ⟨s.disk, advance_answered hphase, rfl, ?_, rfl⟩
      rw [List.take_zero, gone_nil]
  | succ i ih =>
      obtain ⟨disk, hrun, hcontents, hinode, hnew⟩ := ih (Nat.le_of_succ_le hi)
      have hdrop := List.drop_eq_getElem_cons hi
      have htake := List.take_append_getElem hi
      refine ⟨disk.remove (old s)[i], ?_, hcontents, ?_, ?_⟩
      · rw [← Nat.add_assoc, Function.iterate_succ_apply', hrun, hdrop,
          advance_clearing]
      · rw [← htake, gone_concat, ← hinode]
        funext name
        exact inode_remove (old s)[i] name
      · rw [sidecars_remove, hnew]
        have hmem := (List.mem_filter.mp (List.getElem_mem hi)).2
        rw [Bool.and_eq_true, Bool.not_eq_true'] at hmem
        exact Bool.eq_false_iff.mp hmem.2

theorem file_not_mem_old : s.file ∉ old s := by
  intro h
  have hstarts := (mem_sidecars.mp (List.mem_filter.mp h).1).2
  have hlength := length_le_of_startsWith hstarts
  have hdot : ".".toList.length = 1 := rfl
  rw [String.toList_append, List.length_append] at hlength
  omega

theorem tmp_not_mem_old : tmp s.file ∉ old s := by
  intro h
  have hmem := (List.mem_filter.mp h).2
  rw [Bool.and_eq_true] at hmem
  exact of_decide_eq_true hmem.1 rfl

theorem mem_old {name : String} :
    name ∈ old s ↔
      s.disk.inode name ≠ none ∧ Counted s.file name ∧ name ≠ s.file := by
  constructor
  · intro h
    have hne : name ≠ s.file := fun heq => file_not_mem_old (heq ▸ h)
    rw [old, List.mem_filter, mem_sidecars] at h
    refine ⟨h.1.1, Or.inr ⟨h.1.2, ?_⟩, hne⟩
    simpa using h.2
  · rintro ⟨hinode, rfl | ⟨hstarts, hcount⟩, hne⟩
    · exact absurd rfl hne
    · rw [old, List.mem_filter, mem_sidecars]
      refine ⟨⟨hinode, hstarts⟩, ?_⟩
      simpa using hcount

/-- The names after the rename of the temporary file. -/
def renamed (s : System) : String → Option Nat :=
  move s.file (tmp s.file) (gone (old s) s.disk.inode)

theorem renamed_reached (hphase : s.phase c = .answered)
    (htmp : s.disk.inode (tmp s.file) ≠ none) :
    ∃ disk, (advance c)^[2 + (old s).length] s = moving s c .renamed disk ∧
      disk.contents = s.disk.contents ∧ disk.inode = renamed s ∧
      sidecars disk (tmp s.file) = new s := by
  obtain ⟨disk, hrun, hcontents, hinode, hnew⟩ :=
    clearing_reached hphase (Nat.le_refl _)
  rw [List.drop_length] at hrun
  rw [List.take_length] at hinode
  have hsource : disk.inode (tmp s.file) ≠ none := by
    rw [hinode, gone, if_neg tmp_not_mem_old]
    exact htmp
  obtain ⟨disk', hrename⟩ : ∃ d', disk.rename (tmp s.file) s.file = some d' :=
    exists_rename hsource
  refine ⟨disk', ?_, ?_, ?_, ?_⟩
  · rw [show 2 + (old s).length = (1 + (old s).length) + 1 by omega,
      Function.iterate_succ_apply', hrun, advance_cleared hrename]
  · rw [contents_rename hrename, hcontents]
  · funext name
    rw [inode_rename hrename, hinode]
    rfl
  · rw [sidecars_rename hrename (not_startsWith_tmp _) (not_startsWith_file _),
      hnew]

theorem renamed_of_mem_new {name : String} (h : name ∈ new s) :
    renamed s name = s.disk.inode name := by
  obtain ⟨-, hstarts⟩ := mem_sidecars.mp h
  have hfile : s.file ≠ name := by
    rintro rfl
    exact not_startsWith_file _ hstarts
  have htmp : name ≠ tmp s.file := by
    rintro rfl
    exact not_startsWith_tmp _ hstarts
  have hold : name ∉ old s := fun hmem =>
    not_counted_of_startsWith hstarts (mem_old.mp hmem).2.1
  rw [renamed, move_of_ne _ hfile htmp, gone, if_neg hold]

theorem moving_reached (hphase : s.phase c = .answered)
    (htmp : s.disk.inode (tmp s.file) ≠ none) {j : Nat}
    (hj : j ≤ (new s).length) :
    ∃ disk, (advance c)^[3 + (old s).length + j] s =
        moving s c (.moving ((new s).drop j)) disk ∧
      disk.contents = s.disk.contents ∧
      disk.inode = moved (target s.file) ((new s).take j) (renamed s) := by
  induction j with
  | zero =>
      obtain ⟨disk, hrun, hcontents, hinode, hnew⟩ := renamed_reached hphase htmp
      refine ⟨disk, ?_, hcontents, hinode⟩
      rw [show 3 + (old s).length + 0 = (2 + (old s).length) + 1 by omega,
        Function.iterate_succ_apply', hrun, advance_renamed, hnew, List.drop_zero]
  | succ j ih =>
      obtain ⟨disk, hrun, hcontents, hinode⟩ := ih (Nat.le_of_succ_le hj)
      have hdrop := List.drop_eq_getElem_cons hj
      have htake := List.take_append_getElem hj
      have hnodup : (new s).Nodup := nodup_sidecars
      have hsource : disk.inode (new s)[j] ≠ none := by
        rw [hinode]
        apply moved_ne_none
        · exact not_mem_take_getElem hnodup hj
        · rw [renamed_of_mem_new (List.getElem_mem hj)]
          exact (mem_sidecars.mp (List.getElem_mem hj)).1
        · intro name hname
          have hmem := List.mem_of_mem_take hname
          rw [renamed_of_mem_new hmem]
          exact (mem_sidecars.mp hmem).1
        · exact (List.take_sublist _ _).nodup hnodup
      obtain ⟨disk', hrename⟩ :
          ∃ d', disk.rename (new s)[j] (target s.file (new s)[j]) = some d' :=
        exists_rename hsource
      refine ⟨disk', ?_, ?_, ?_⟩
      · rw [← Nat.add_assoc, Function.iterate_succ_apply', hrun, hdrop,
          advance_moving hrename]
      · rw [contents_rename hrename, hcontents]
      · rw [← htake, moved_concat, ← hinode]
        funext name
        exact inode_rename hrename name

theorem home_reached (hphase : s.phase c = .answered)
    (htmp : s.disk.inode (tmp s.file) ≠ none) (i : Nat) :
    ∃ disk, (advance c)^[4 + (old s).length + (new s).length + i] s =
        moving s c c.home disk ∧
      disk.contents = s.disk.contents ∧
      disk.inode = moved (target s.file) (new s) (renamed s) := by
  induction i with
  | zero =>
      obtain ⟨disk, hrun, hcontents, hinode⟩ :=
        moving_reached hphase htmp (Nat.le_refl _)
      rw [List.drop_length] at hrun
      rw [List.take_length] at hinode
      refine ⟨disk, ?_, hcontents, hinode⟩
      rw [show 4 + (old s).length + (new s).length + 0 =
          (3 + (old s).length + (new s).length) + 1 by omega,
        Function.iterate_succ_apply', hrun, advance_moved]
  | succ i ih =>
      obtain ⟨disk, hrun, hcontents, hinode⟩ := ih
      refine ⟨disk, ?_, hcontents, hinode⟩
      rw [← Nat.add_assoc, Function.iterate_succ_apply', hrun, advance_home]

/-- A kill leaves the previous save with some of its files gone. -/
theorem disk_before_rename (hphase : s.phase c = .answered) {k : Nat}
    (hk : k ≤ 1 + (old s).length) :
    ((advance c)^[k] s).disk.contents = s.disk.contents ∧
      ((advance c)^[k] s).disk.inode =
        gone ((old s).take (k - 1)) s.disk.inode := by
  rcases Nat.eq_zero_or_pos k with rfl | hpos
  · refine ⟨rfl, ?_⟩
    rw [List.take_zero, gone_nil]
    rfl
  · obtain ⟨disk, hrun, hcontents, hinode, -⟩ :=
      clearing_reached hphase (i := k - 1) (by omega)
    rw [Nat.add_sub_cancel' hpos] at hrun
    rw [hrun]
    exact ⟨hcontents, hinode⟩

/-- A kill leaves the new save with some of its files still to be moved. -/
theorem disk_after_rename (hphase : s.phase c = .answered)
    (htmp : s.disk.inode (tmp s.file) ≠ none) {k : Nat}
    (hk : 2 + (old s).length ≤ k) :
    ((advance c)^[k] s).disk.contents = s.disk.contents ∧
      ((advance c)^[k] s).disk.inode =
        moved (target s.file) ((new s).take (k - (3 + (old s).length)))
          (renamed s) := by
  obtain heq | hmoving | hdone : k = 2 + (old s).length ∨
      (∃ j, k = 3 + (old s).length + j ∧ j ≤ (new s).length) ∨
      ∃ i, k = 4 + (old s).length + (new s).length + i := by
    by_cases hle : k ≤ 3 + (old s).length + (new s).length
    · obtain heq | hlt := Nat.eq_or_lt_of_le hk
      · exact Or.inl heq.symm
      · exact Or.inr (Or.inl ⟨k - (3 + (old s).length), by omega, by omega⟩)
    · exact Or.inr (Or.inr ⟨k - (4 + (old s).length + (new s).length), by omega⟩)
  · obtain ⟨disk, hrun, hcontents, hinode, -⟩ := renamed_reached hphase htmp
    rw [heq, hrun, show 2 + (old s).length - (3 + (old s).length) = 0 by omega]
    exact ⟨hcontents, hinode⟩
  · obtain ⟨j, rfl, hj⟩ := hmoving
    obtain ⟨disk, hrun, hcontents, hinode⟩ := moving_reached hphase htmp hj
    rw [hrun, Nat.add_sub_cancel_left]
    exact ⟨hcontents, hinode⟩
  · obtain ⟨i, rfl⟩ := hdone
    obtain ⟨disk, hrun, hcontents, hinode⟩ := home_reached hphase htmp i
    rw [hrun, List.take_of_length_le (by omega)]
    exact ⟨hcontents, hinode⟩

end Steps

section Saves

variable {s : System} {disk : SlotDisk}

theorem file_ne_tmp_inode (htmp : s.disk.inode (tmp s.file) ≠ none) :
    s.disk.inode (tmp s.file) ≠ s.disk.inode s.file := by
  intro h
  obtain ⟨i, hi⟩ := Option.ne_none_iff_exists'.mp htmp
  exact file_ne_tmp s.file (s.disk.name_inj (h.symm.trans hi) hi)

theorem oneSave_before_rename {i : Nat}
    (htmp : s.disk.inode (tmp s.file) ≠ none)
    (hdisk : disk.inode = gone ((old s).take i) s.disk.inode) :
    OneSave s disk ↔ i = 0 ∨ old s = [] ∨ s.disk.inode s.file = none := by
  have hfile : disk.inode s.file = s.disk.inode s.file := by
    rw [hdisk, gone, if_neg fun h => file_not_mem_old (List.mem_of_mem_take h)]
  constructor
  · intro hone
    by_cases hnone : s.disk.inode s.file = none
    · exact Or.inr (Or.inr hnone)
    · obtain hprevious | hnew := hone (hfile ▸ hnone)
      · -- A file that is gone is one that counts.
        rcases i with - | i
        · exact Or.inl rfl
        · refine Or.inr (Or.inl (List.eq_nil_iff_forall_not_mem.mpr ?_))
          intro name hmem
          obtain ⟨first, rest, hold⟩ := List.exists_cons_of_ne_nil
            (List.ne_nil_of_mem hmem)
          have hfirst : first ∈ old s := hold ▸ List.mem_cons_self
          obtain ⟨hinode, hcounted, -⟩ := mem_old.mp hfirst
          have hgone := hprevious first hcounted
          rw [hdisk, hold, List.take_succ_cons, gone,
            if_pos List.mem_cons_self] at hgone
          exact hinode hgone.symm
      · have hmain := hnew "" (Or.inl (String.append_empty))
        rw [String.append_empty, String.append_empty, hfile] at hmain
        exact absurd hmain.symm (file_ne_tmp_inode htmp)
  · rintro (rfl | hold | hnone) hexists
    · rw [List.take_zero, gone_nil] at hdisk
      exact Or.inl fun name _ => congrFun hdisk name
    · rw [hold, List.take_nil, gone_nil] at hdisk
      exact Or.inl fun name _ => congrFun hdisk name
    · exact absurd (hfile.trans hnone) hexists

theorem renamed_of_counted {name : String} (h : Counted s.file name)
    (hne : name ≠ s.file) : renamed s name = none := by
  have htmp : name ≠ tmp s.file := fun heq => not_counted_tmp s.file (heq ▸ h)
  rw [renamed, move_of_ne _ (Ne.symm hne) htmp, gone]
  split
  · rfl
  · rename_i hold
    by_contra hinode
    exact hold (mem_old.mpr ⟨hinode, h, hne⟩)

theorem renamed_file : renamed s s.file = s.disk.inode (tmp s.file) := by
  rw [renamed, move, if_pos rfl, gone, if_neg tmp_not_mem_old]

theorem not_mem_new_of_counted {name : String} (h : Counted s.file name) :
    name ∉ new s := fun hmem =>
  not_counted_of_startsWith (mem_sidecars.mp hmem).2 h

/-- The name next to the temporary file of which a counted one is made. -/
theorem counted_suffix {suffix : String}
    (h : Counted s.file (s.file ++ suffix)) (hne : s.file ++ suffix ≠ s.file) :
    startsWith (tmp s.file ++ suffix) (tmp s.file ++ ".") = true := by
  rcases h with h | ⟨hstarts, -⟩
  · exact absurd h hne
  · obtain ⟨rest, hrest⟩ := (startsWith_iff _ _).mp hstarts
    rw [String.append_assoc] at hrest
    rw [startsWith_iff, append_inj hrest]
    exact ⟨rest, (String.append_assoc).symm⟩

theorem moved_of_not_target {names : List String} {name : String}
    (hnames : ∀ other ∈ names, other ∈ new s) (hcounted : Counted s.file name)
    (hne : name ≠ s.file) (htarget : ∀ other ∈ names, target s.file other ≠ name) :
    moved (target s.file) names (renamed s) name = none := by
  rw [moved_of_not_mem _ (fun h => not_mem_new_of_counted hcounted (hnames _ h))
    htarget]
  exact renamed_of_counted hcounted hne

theorem ofNew_of_inOrder {j : Nat} (horder : InOrder s)
    (hrest : ∀ name ∈ (new s).drop j, ¬Counted s.file (target s.file name))
    (hdisk : disk.inode =
      moved (target s.file) ((new s).take j) (renamed s)) : OfNew s disk := by
  intro suffix hcounted
  have htake : ∀ other ∈ (new s).take j, other ∈ new s := fun _ h =>
    List.mem_of_mem_take h
  by_cases hne : s.file ++ suffix = s.file
  · have hsuffix : suffix = "" :=
      append_inj (hne.trans String.append_empty.symm)
    rw [hsuffix, String.append_empty, String.append_empty, hdisk,
      moved_of_not_mem, renamed_file]
    · exact fun h => not_mem_new_of_counted (Or.inl rfl) (htake _ h)
    · exact fun other h => target_ne_file (mem_sidecars.mp (htake _ h)).2
  · have hstarts := counted_suffix hcounted hne
    by_cases hmem : tmp s.file ++ suffix ∈ (new s).take j
    · obtain ⟨before, after, hsplit⟩ := List.append_of_mem hmem
      have hnodup : ((new s).take j).Nodup :=
        (List.take_sublist _ _).nodup nodup_sidecars
      have hpairs := horder.sublist (List.take_sublist j (new s))
      rw [hsplit] at hnodup hpairs htake
      have harrives := moved_target (renamed s) hnodup
        (fun other hother h => target_inj
          (mem_sidecars.mp (htake other (by simp [hother]))).2 hstarts h)
        (fun h => not_mem_new_of_counted (target_tmp s.file suffix ▸ hcounted)
          (htake _ (by simp [h])))
        (fun other hother => (List.pairwise_append.mp hpairs).2.2 other hother _
          List.mem_cons_self (target_tmp s.file suffix ▸ hcounted))
      rw [target_tmp] at harrives
      rw [hdisk, hsplit, harrives, renamed_of_mem_new (htake _ (by simp))]
    · have hall : tmp s.file ++ suffix ∉ new s := by
        intro h
        rw [← List.take_append_drop j (new s), List.mem_append] at h
        rcases h with h | h
        · exact hmem h
        · exact hrest _ h (target_tmp s.file suffix ▸ hcounted)
      rw [hdisk, moved_of_not_target htake hcounted hne]
      · by_contra hinode
        exact hall (mem_sidecars.mpr ⟨Ne.symm hinode, hstarts⟩)
      · intro other hother h
        have hstarts' := (mem_sidecars.mp (htake _ hother)).2
        have heq := target_inj hstarts' hstarts
          (h.trans (target_tmp s.file suffix).symm)
        exact hall (heq ▸ htake _ hother)

/-- What `OfNew` says of one file next to the temporary one. -/
theorem OfNew.at {name : String} (h : OfNew s disk) (hmem : name ∈ new s)
    (hcounted : Counted s.file (target s.file name)) :
    disk.inode (target s.file name) = s.disk.inode name := by
  obtain ⟨rest, hrest⟩ := (startsWith_iff _ _).mp (mem_sidecars.mp hmem).2
  rw [String.append_assoc] at hrest
  subst hrest
  rw [target_tmp] at hcounted ⊢
  exact h _ hcounted

/-- A file that counts and is not moved yet is missing next to FILE. -/
theorem not_counted_of_ofNew {j : Nat} (hnew : OfNew s disk)
    (hdisk : disk.inode =
      moved (target s.file) ((new s).take j) (renamed s)) :
    ∀ name ∈ (new s).drop j, ¬Counted s.file (target s.file name) := by
  intro name hname hcounted
  have htake : ∀ other ∈ (new s).take j, other ∈ new s := fun _ h =>
    List.mem_of_mem_take h
  have hmem := List.mem_of_mem_drop hname
  obtain ⟨hinode, hstarts⟩ := mem_sidecars.mp hmem
  have hnone : disk.inode (target s.file name) = none := by
    rw [hdisk]
    apply moved_of_not_target htake hcounted (target_ne_file hstarts)
    intro other hother h
    have heq := target_inj (mem_sidecars.mp (htake _ hother)).2 hstarts h
    exact List.disjoint_take_drop nodup_sidecars (Nat.le_refl j) hother (heq ▸ hname)
  exact hinode ((hnew.at hmem hcounted).symm.trans hnone)

theorem inOrder_of_ofNew {j : Nat} (hnew : OfNew s disk)
    (hdisk : disk.inode =
      moved (target s.file) ((new s).take j) (renamed s)) :
    InOrder s ∧
      ∀ name ∈ (new s).drop j, ¬Counted s.file (target s.file name) := by
  have hnodup : (new s).Nodup := nodup_sidecars
  have hrest := not_counted_of_ofNew hnew hdisk
  refine ⟨?_, hrest⟩
  rw [InOrder, List.pairwise_iff_getElem]
  intro first last hfirst hlast hlt hcounted hover
  have hmem : (new s)[last] ∈ new s := List.getElem_mem hlast
  obtain ⟨i, hi⟩ := Option.ne_none_iff_exists'.mp (mem_sidecars.mp hmem).1
  -- The last of the two is moved too, so the first one was moved over it.
  have hj : last < j := by
    by_contra hle
    exact hrest _ (List.mem_drop_iff_getElem.mpr
      ⟨last - j, by omega, by simp [Nat.add_sub_cancel' (Nat.le_of_not_lt hle)]⟩)
      hcounted
  have hne : tmp s.file ≠ (new s)[last] := fun h =>
    not_startsWith_tmp s.file (h ▸ (mem_sidecars.mp hmem).2)
  have hkept : ∀ other, gone (old s) s.disk.inode other = some i →
      other = (new s)[last] := by
    intro other h
    rw [gone] at h
    split at h
    · cases h
    · exact s.disk.name_inj h hi
  have hlost := lost_of_overwritten (only_move hkept hne s.file)
    (not_mem_take_getElem hnodup hlast)
    (List.mem_take_iff_getElem.mpr ⟨first, by omega, rfl⟩) hover
  have hsplit : (new s).take j =
      (new s).take last ++ ((new s).take j).drop last := by
    have h := List.take_append_drop last ((new s).take j)
    rw [List.take_take, Nat.min_eq_left (Nat.le_of_lt hj)] at h
    exact h.symm
  have hend := hnew.at hmem hcounted
  rw [hdisk, hsplit, moved_append, hi] at hend
  exact lost_moved hlost _ _ hend

theorem oneSave_after_rename {j : Nat}
    (htmp : s.disk.inode (tmp s.file) ≠ none)
    (hdisk : disk.inode =
      moved (target s.file) ((new s).take j) (renamed s)) :
    OneSave s disk ↔
      InOrder s ∧
        ∀ name ∈ (new s).drop j, ¬Counted s.file (target s.file name) := by
  have hmain : disk.inode s.file = s.disk.inode (tmp s.file) := by
    rw [hdisk, moved_of_not_mem, renamed_file]
    · exact fun h => not_mem_new_of_counted (Or.inl rfl) (List.mem_of_mem_take h)
    · exact fun other h =>
        target_ne_file (mem_sidecars.mp (List.mem_of_mem_take h)).2
  constructor
  · intro hone
    obtain hprevious | hnew := hone (hmain ▸ htmp)
    · have hsame := hprevious s.file (Or.inl rfl)
      exact absurd (hmain.symm.trans hsame) (file_ne_tmp_inode htmp)
    · exact inOrder_of_ofNew hnew hdisk
  · rintro ⟨horder, hrest⟩ _
    exact Or.inr (ofNew_of_inOrder horder hrest hdisk)

end Saves

/-- A kill after `k` steps of `move_with_sidecars` leaves the files of one
save just when it spares them. No file is changed. -/
theorem oneSave_iff_spared {s : System} {c : Client}
    (hphase : s.phase c = .answered)
    (htmp : s.disk.inode (tmp s.file) ≠ none) (k : Nat) :
    ((advance c)^[k] s).disk.contents = s.disk.contents ∧
      (OneSave s ((advance c)^[k] s).disk ↔ Spared s k) := by
  by_cases hk : k ≤ 1 + (old s).length
  · obtain ⟨hcontents, hinode⟩ := disk_before_rename hphase hk
    refine ⟨hcontents, ?_⟩
    rw [oneSave_before_rename htmp hinode, Spared]
    constructor
    · rintro (hzero | hold | hnone)
      · exact Or.inl (by omega)
      · rw [hold] at hk
        exact Or.inl hk
      · exact Or.inr (Or.inl ⟨hnone, hk⟩)
    · rintro (hfirst | ⟨hnone, -⟩ | ⟨hlate, -⟩)
      · exact Or.inl (by omega)
      · exact Or.inr (Or.inr hnone)
      · omega
  · obtain ⟨hcontents, hinode⟩ := disk_after_rename hphase htmp (k := k) (by omega)
    refine ⟨hcontents, ?_⟩
    rw [oneSave_after_rename htmp hinode, Spared]
    constructor
    · exact fun h => Or.inr (Or.inr ⟨by omega, h⟩)
    · rintro (hfirst | ⟨-, hearly⟩ | ⟨-, h⟩)
      · omega
      · omega
      · exact h

def written (disk : SlotDisk) (name : String) (bytes : List UInt8) : SlotDisk :=
  (disk.truncate name).1.append (disk.truncate name).2 bytes

/-- ik_llama.cpp has saved twice, each time with a file next to the slot. -/
def secondSave : System :=
  { firstStart with
    disk := written (written (written (written (Disk.empty String UInt8)
      "m.slot" [1]) "m.slot.tokens.json" [2])
      "m.slot.tmp" [3]) "m.slot.tmp.tokens.json" [4]
    engine := .idle true
    phase := Function.update (fun _ => .idle) .run .answered }

/-- After five steps the whole new save is in place. -/
theorem oneSave_iff_spared_secondSave :
    OneSave secondSave ((advance .run)^[5] secondSave).disk :=
  (oneSave_iff_spared (s := secondSave) (c := .run) rfl (by decide) 5).2.mpr
    (by decide)

/-- The kill comes after the old file next to the slot is removed, or after the
rename of the slot. -/
theorem not_oneSave_secondSave :
    let removed := ((advance .run)^[2] secondSave).disk
    let renamed := ((advance .run)^[3] secondSave).disk
    removed.read "m.slot" = some [1] ∧
      removed.read "m.slot.tokens.json" = none ∧
      secondSave.disk.read "m.slot.tokens.json" = some [2] ∧
      renamed.read "m.slot" = some [3] ∧
      renamed.read "m.slot.tokens.json" = none ∧
      secondSave.disk.read "m.slot.tmp.tokens.json" = some [4] ∧
      ¬OneSave secondSave removed ∧ ¬OneSave secondSave renamed := by
  refine ⟨by decide, by decide, by decide, by decide, by decide, by decide, ?_, ?_⟩
  · intro h
    rcases h (by decide) with hprevious | hnew
    · have hsidecar := hprevious "m.slot.tokens.json" (by decide)
      exact absurd hsidecar (by decide)
    · have hmain := hnew "" (by decide)
      exact absurd hmain (by decide)
  · intro h
    rcases h (by decide) with hprevious | hnew
    · have hmain := hprevious "m.slot" (by decide)
      exact absurd hmain (by decide)
    · have hsidecar := hnew ".tokens.json" (by decide)
      exact absurd hsidecar (by decide)

end AssistantHub.SlotMoves
