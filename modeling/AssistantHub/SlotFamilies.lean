import AssistantHub.Fallible
import AssistantHub.InodeFiles
import AssistantHub.LossyText
import AssistantHub.RenameChains

namespace AssistantHub.SlotFamilies

open AssistantHub.Fallible
open AssistantHub.InodeFiles
open AssistantHub.LittleEndian
open AssistantHub.LossyText
open AssistantHub.RenameChains

/-- A directory whose names are any bytes. -/
abbrev ByteDisk := Disk Bytes UInt8

abbrev FileName := List Char

/-- What the file system answers: the names that a listing gives, in its order, if
the directory can be read, and which removals and renames succeed. -/
structure FileSystem where
  list : ByteDisk → Option (List Bytes)
  removes : Bytes → Bool
  renames : Bytes → Bytes → Bool

section Operations

variable (fs : FileSystem)

/-- `file.` -/
def stem (file : FileName) : FileName := file ++ ['.']

def tmpName (file : FileName) : FileName := file ++ ".tmp".toList

def sidecars (disk : ByteDisk) (file : FileName) : List FileName :=
  (((fs.list disk).getD []).filterMap toStr).filter fun name =>
    (stem file).isPrefixOf name

/-- `remove_file`, whose error is not looked at. -/
def removeFile (name : FileName) (disk : ByteDisk) : ByteDisk :=
  if fs.removes (utf8 name) then disk.remove (utf8 name) else disk

def renameFile (source target : FileName) (disk : ByteDisk) :
    Except Unit Unit × ByteDisk :=
  if fs.renames (utf8 source) (utf8 target) then
    match disk.rename (utf8 source) (utf8 target) with
    | some disk => (.ok (), disk)
    | none => (.error (), disk)
  else (.error (), disk)

/-- Each `source.SUFFIX` becomes `target.SUFFIX`. -/
def renameAll (source target : FileName) :
    List FileName → ByteDisk → Except Unit Unit × ByteDisk
  | [], disk => (.ok (), disk)
  | name :: names, disk =>
      andThen (renameFile fs name (target ++ name.drop source.length) disk)
        (renameAll source target names)

/-- Renames `source` to `target`, and each `source.SUFFIX` to `target.SUFFIX`.
Other files that belong to `target` from an earlier save go away first. -/
def moveWithSidecars (source target : FileName) (disk : ByteDisk) :
    Except Unit Unit × ByteDisk :=
  let old := (sidecars fs disk target).filter fun name =>
    name ≠ source && !(stem source).isPrefixOf name
  andThen (renameFile fs source target (old.foldl (fun disk name =>
      removeFile fs name disk) disk)) fun disk =>
    renameAll fs source target (sidecars fs disk source) disk

end Operations

/-- Every operation succeeds, and a listing has each name once, in any order. -/
structure Succeeds (fs : FileSystem) : Prop where
  list : ∀ disk, ∃ names, fs.list disk = some names ∧ names.Perm disk.names
  removes : ∀ name, fs.removes name = true
  renames : ∀ source target, fs.renames source target = true

/-- The contents under the names that are UTF-8. -/
def texts (disk : ByteDisk) (name : FileName) : Option (List UInt8) :=
  disk.read (utf8 name)

/-- A name that is not UTF-8 is under neither side. -/
def SameOthers (disk disk' : ByteDisk) : Prop :=
  ∀ name, toStr name = none → disk'.read name = disk.read name

section Steps

variable {fs : FileSystem} (hfs : Succeeds fs) {disk disk' : ByteDisk}
  {file name source target : FileName}

theorem texts_remove (disk : ByteDisk) (name other : FileName) :
    texts (disk.remove (utf8 name)) other =
      if other = name then none else texts disk other := by
  rw [texts, read_remove]
  simp only [utf8_inj]
  rfl

theorem texts_rename (h : disk.rename (utf8 source) (utf8 target) = some disk') :
    texts disk' = move target source (texts disk) := by
  funext name
  rw [texts, read_rename h]
  simp only [utf8_inj]
  rfl

theorem texts_ne_none_iff : texts disk name ≠ none ↔ utf8 name ∈ disk.names := by
  rw [mem_names_iff, texts, Disk.read]
  simp

theorem sameOthers_remove (disk : ByteDisk) (name : FileName) :
    SameOthers disk (disk.remove (utf8 name)) := by
  intro other hother
  have hne : other ≠ utf8 name := by
    rintro rfl
    rw [toStr_utf8] at hother
    cases hother
  rw [read_remove, if_neg hne]

theorem sameOthers_rename
    (h : disk.rename (utf8 source) (utf8 target) = some disk') :
    SameOthers disk disk' := by
  intro other hother
  have hne : ∀ text, other ≠ utf8 text := by
    rintro text rfl
    rw [toStr_utf8] at hother
    cases hother
  rw [read_rename h, if_neg (hne target).symm, if_neg (hne source)]

theorem SameOthers.trans {between : ByteDisk} (h : SameOthers disk between)
    (h' : SameOthers between disk') : SameOthers disk disk' :=
  fun name hname => (h' name hname).trans (h name hname)

include hfs

theorem mem_sidecars :
    name ∈ sidecars fs disk file ↔ texts disk name ≠ none ∧ stem file <+: name := by
  obtain ⟨names, hlist, hperm⟩ := hfs.list disk
  rw [texts_ne_none_iff, ← hperm.mem_iff, sidecars, hlist, List.mem_filter,
    List.isPrefixOf_iff_prefix]
  simp only [Option.getD_some, List.mem_filterMap, toStr_eq_some, exists_eq_right']

theorem nodup_sidecars (disk : ByteDisk) (file : FileName) :
    (sidecars fs disk file).Nodup := by
  obtain ⟨names, hlist, hperm⟩ := hfs.list disk
  have hnodup : names.Nodup := hperm.nodup_iff.mpr disk.dir.nodup
  rw [sidecars, hlist]
  refine (hnodup.filterMap fun name other text hname hother => ?_).filter _
  rw [← toStr_eq_some.mp hname, toStr_eq_some.mp hother]

theorem removeFile_eq (name : FileName) (disk : ByteDisk) :
    removeFile fs name disk = disk.remove (utf8 name) :=
  if_pos (hfs.removes _)

theorem removeAll_spec (names : List FileName) (disk : ByteDisk) :
    texts (names.foldl (fun disk name => removeFile fs name disk) disk) =
        gone names (texts disk) ∧
      SameOthers disk
        (names.foldl (fun disk name => removeFile fs name disk) disk) := by
  induction names generalizing disk with
  | nil => exact ⟨(gone_nil _).symm, fun _ _ => rfl⟩
  | cons name names ih =>
      rw [List.foldl_cons, removeFile_eq hfs]
      obtain ⟨htexts, hothers⟩ := ih (disk.remove (utf8 name))
      refine ⟨?_, (sameOthers_remove disk name).trans hothers⟩
      rw [htexts]
      funext other
      simp only [gone, texts_remove, List.mem_cons]
      by_cases hother : other = name
      · simp [hother]
      · simp [hother]

theorem renameFile_spec (hsource : texts disk source ≠ none) (target : FileName) :
    ∃ disk', renameFile fs source target disk = (.ok (), disk') ∧
      texts disk' = move target source (texts disk) ∧ SameOthers disk disk' := by
  rw [texts_ne_none_iff, mem_names_iff] at hsource
  obtain ⟨disk', hrename⟩ : ∃ d', disk.rename (utf8 source) (utf8 target) = some d' :=
    exists_rename hsource
  refine ⟨disk', ?_, texts_rename hrename, sameOthers_rename hrename⟩
  rw [renameFile, if_pos (hfs.renames _ _), hrename]

/-- By induction on the names: those still to come are not renamed away. -/
theorem renameAll_spec {names : List FileName} (hnodup : names.Nodup)
    (hnames : ∀ name ∈ names, texts disk name ≠ none) (source target : FileName) :
    ∃ disk', renameAll fs source target names disk = (.ok (), disk') ∧
      texts disk' = moved (fun name => target ++ name.drop source.length) names
        (texts disk) ∧ SameOthers disk disk' := by
  induction names generalizing disk with
  | nil => exact ⟨disk, rfl, rfl, fun _ _ => rfl⟩
  | cons name names ih =>
      rw [List.forall_mem_cons] at hnames
      rw [List.nodup_cons] at hnodup
      obtain ⟨between, hrename, htexts, hothers⟩ :=
        renameFile_spec hfs hnames.1 (target ++ name.drop source.length)
      have hrest : ∀ other ∈ names, texts between other ≠ none := by
        intro other hother
        have hne : other ≠ name := fun h => hnodup.1 (h ▸ hother)
        rw [htexts, move, if_neg hne]
        split
        · exact hnames.1
        · exact hnames.2 other hother
      obtain ⟨disk', hrun, htexts', hothers'⟩ := ih hnodup.2 hrest
      refine ⟨disk', ?_, ?_, hothers.trans hothers'⟩
      · rw [renameAll, hrename, andThen_of_ok rfl]
        exact hrun
      · rw [htexts', htexts, moved]

end Steps

section Names

variable {file name : FileName}

def tmpLetters : List Char := ['t', 'm', 'p']

/-- The new name of a file next to the temporary one. -/
def newName (file name : FileName) : FileName :=
  file ++ name.drop (tmpName file).length

theorem tmpName_eq (file : FileName) : tmpName file = stem file ++ tmpLetters := by
  rw [tmpName, stem, List.append_assoc]
  rfl

theorem stem_tmpName (file suffix : FileName) :
    stem (tmpName file) ++ suffix = stem file ++ (tmpLetters ++ '.' :: suffix) := by
  rw [stem, tmpName_eq]
  simp only [List.append_assoc, List.singleton_append]

theorem newName_stem (file suffix : FileName) :
    newName file (stem (tmpName file) ++ suffix) = stem file ++ suffix := by
  rw [newName, stem, stem, List.append_assoc, List.drop_left, List.append_assoc]

theorem stem_ne (file suffix : FileName) : stem file ++ suffix ≠ file := by
  intro h
  have hlength := congrArg List.length h
  simp [stem] at hlength

theorem stem_prefix_of_tmp (h : stem (tmpName file) <+: name) : stem file <+: name := by
  obtain ⟨suffix, rfl⟩ := h
  exact ⟨_, (stem_tmpName file suffix).symm⟩

theorem not_stem_tmpName (file : FileName) : ¬stem (tmpName file) <+: tmpName file := by
  rintro ⟨suffix, h⟩
  exact stem_ne _ _ h

end Names

section Family

variable {m : FileName → Option (List UInt8)} {file name : FileName}

/-- The files of an earlier save that go away. -/
def IsOld (m : FileName → Option (List UInt8)) (file name : FileName) : Prop :=
  m name ≠ none ∧ stem file <+: name ∧ name ≠ tmpName file ∧
    ¬stem (tmpName file) <+: name

/-- No file next to the temporary one has another temporary name as its new
one. -/
def NoneNested (m : FileName → Option (List UInt8)) (file : FileName) : Prop :=
  ∀ suffix, tmpLetters <+: suffix → m (stem (tmpName file) ++ suffix) = none

/-- The names behind the rename of the temporary file: of those that belong to
the file only the ones of the new save are left. -/
theorem cleared_eq {old : List FileName} (hold : ∀ name, name ∈ old ↔ IsOld m file name)
    (name : FileName) :
    move file (tmpName file) (gone old m) name =
      if name = file then m (tmpName file)
      else if stem file <+: name ∧ ¬stem (tmpName file) <+: name then none
      else m name := by
  have htmp : tmpName file ∉ old := fun hmem => ((hold _).mp hmem).2.2.1 rfl
  by_cases hfile : name = file
  · rw [if_pos hfile, move, if_pos hfile.symm, gone, if_neg htmp]
  · rw [if_neg hfile, move, if_neg (Ne.symm hfile)]
    by_cases hname : name = tmpName file
    · subst hname
      rw [if_pos rfl, if_pos ⟨⟨_, (tmpName_eq file).symm⟩, not_stem_tmpName file⟩]
    · rw [if_neg hname, gone]
      by_cases hgone : stem file <+: name ∧ ¬stem (tmpName file) <+: name
      · rw [if_pos hgone]
        split
        · rfl
        · rename_i hmem
          rw [hold, IsOld, not_and] at hmem
          exact not_not.mp fun hm => hmem hm ⟨hgone.1, hname, hgone.2⟩
      · rw [if_neg hgone, if_neg fun hmem => hgone ⟨((hold _).mp hmem).2.1,
          ((hold _).mp hmem).2.2.2⟩]

section Moves

variable {cleared : FileName → Option (List UInt8)} {new : List FileName}
  (hnodup : new.Nodup)
  (hnew : ∀ name, name ∈ new ↔ m name ≠ none ∧ stem (tmpName file) <+: name)
  (hfree : NoneNested m file)
  (hcleared : ∀ name, cleared name =
    if name = file then m (tmpName file)
    else if stem file <+: name ∧ ¬stem (tmpName file) <+: name then none
    else m name)

include hnew

theorem target_of_mem (hmem : name ∈ new) :
    ∃ suffix, name = stem (tmpName file) ++ suffix ∧
      newName file name = stem file ++ suffix := by
  obtain ⟨suffix, rfl⟩ := ((hnew name).mp hmem).2
  exact ⟨suffix, rfl, newName_stem file suffix⟩

theorem eq_of_target (hmem : name ∈ new) {suffix : FileName}
    (h : newName file name = stem file ++ suffix) :
    name = stem (tmpName file) ++ suffix := by
  obtain ⟨suffix', hname, htarget⟩ := target_of_mem hnew hmem
  rw [htarget] at h
  rw [hname, List.append_cancel_left h]

include hcleared

theorem moved_others (hfile : name ≠ file) (hstem : ¬stem file <+: name) :
    moved (newName file) new cleared name = m name := by
  rw [moved_of_not_mem, hcleared, if_neg hfile, if_neg fun h => hstem h.1]
  · exact fun hmem => hstem (stem_prefix_of_tmp ((hnew name).mp hmem).2)
  · rintro other hother rfl
    obtain ⟨suffix, -, htarget⟩ := target_of_mem hnew hother
    exact hstem ⟨suffix, htarget.symm⟩

theorem moved_file : moved (newName file) new cleared file = m (tmpName file) := by
  rw [moved_of_not_mem, hcleared, if_pos rfl]
  · intro hmem
    obtain ⟨suffix, hname, -⟩ := target_of_mem hnew hmem
    exact stem_ne file _ ((stem_tmpName file suffix).symm.trans hname.symm)
  · intro other hother hname
    obtain ⟨suffix, -, htarget⟩ := target_of_mem hnew hother
    exact stem_ne file suffix (htarget.symm.trans hname)

include hnodup hfree

/-- What has got its new name is not renamed again, and nothing else gets it. -/
theorem moved_suffix (suffix : FileName) :
    moved (newName file) new cleared (stem file ++ suffix) =
      m (stem (tmpName file) ++ suffix) := by
  by_cases hmem : stem (tmpName file) ++ suffix ∈ new
  · have hexists := ((hnew _).mp hmem).1
    have hletters : ¬tmpLetters <+: suffix := fun h => hexists (hfree suffix h)
    have hstem : ¬stem (tmpName file) <+: stem file ++ suffix := by
      rintro ⟨rest, hrest⟩
      rw [stem_tmpName] at hrest
      exact hletters ⟨'.' :: rest, List.append_cancel_left hrest⟩
    obtain ⟨before, after, hsplit⟩ := List.append_of_mem hmem
    have hbefore : ∀ other ∈ before, other ∈ new := fun other hother =>
      hsplit ▸ List.mem_append_left _ hother
    have hafter : ∀ other ∈ after, other ∈ new := fun other hother =>
      hsplit ▸ List.mem_append_right _ (List.mem_cons_of_mem _ hother)
    rw [hsplit, ← newName_stem file suffix, moved_target, hcleared, if_neg, if_neg]
    · exact fun h => h.2 ⟨suffix, rfl⟩
    · rw [stem_tmpName]
      exact stem_ne file _
    · exact hsplit ▸ hnodup
    · intro other hother htarget
      rw [newName_stem] at htarget
      exact eq_of_target hnew (hafter other hother) htarget
    · rw [newName_stem]
      exact fun hmem => hstem ((hnew _).mp (hafter _ hmem)).2
    · intro other hother htarget
      rw [stem_tmpName] at htarget
      have hother' := eq_of_target hnew (hbefore other hother) htarget
      refine ((hnew other).mp (hbefore other hother)).1 ?_
      rw [hother']
      exact hfree _ ⟨_, rfl⟩
  · have hnone : m (stem (tmpName file) ++ suffix) = none := by
      by_contra hsome
      exact hmem ((hnew _).mpr ⟨hsome, suffix, rfl⟩)
    have htarget : ∀ other ∈ new, newName file other ≠ stem file ++ suffix := by
      intro other hother h
      exact hmem (eq_of_target hnew hother h ▸ hother)
    rw [hnone]
    by_cases hsource : stem file ++ suffix ∈ new
    · exact moved_source cleared hsource hnodup htarget
    · rw [moved_of_not_mem cleared hsource htarget, hcleared, if_neg (stem_ne file suffix)]
      split
      · rfl
      · rename_i hstem
        rw [not_and, not_not] at hstem
        by_contra hsome
        exact hsource ((hnew _).mpr ⟨hsome, hstem ⟨suffix, rfl⟩⟩)

theorem moved_tmp : moved (newName file) new cleared (tmpName file) = none := by
  rw [tmpName_eq, moved_suffix hnodup hnew hfree hcleared]
  exact hfree _ List.prefix_rfl

theorem moved_tmp_suffix (suffix : FileName) :
    moved (newName file) new cleared (stem (tmpName file) ++ suffix) = none := by
  rw [stem_tmpName, moved_suffix hnodup hnew hfree hcleared]
  exact hfree _ ⟨_, rfl⟩

end Moves

end Family

section Runs

variable {fs : FileSystem} {disk : ByteDisk} {file : FileName}

/-- The files that are removed, as `move_with_sidecars` filters them. -/
theorem mem_old (hfs : Succeeds fs) (name : FileName) :
    (name ∈ (sidecars fs disk file).filter fun name =>
      name ≠ tmpName file && !(stem (tmpName file)).isPrefixOf name) ↔
      IsOld (texts disk) file name := by
  rw [List.mem_filter, mem_sidecars hfs, IsOld, and_assoc]
  simp [← Bool.not_eq_true, List.isPrefixOf_iff_prefix]

/-- All files of the new save get their names, and of those that belong to the file
no other one is left. Names that are not UTF-8 are left alone. -/
theorem moveWithSidecars_family (hfs : Succeeds fs)
    (htmp : texts disk (tmpName file) ≠ none) (hfree : NoneNested (texts disk) file) :
    ∃ disk', moveWithSidecars fs (tmpName file) file disk = (.ok (), disk') ∧
      texts disk' file = texts disk (tmpName file) ∧
      (∀ suffix, texts disk' (stem file ++ suffix) =
        texts disk (stem (tmpName file) ++ suffix)) ∧
      texts disk' (tmpName file) = none ∧
      (∀ suffix, texts disk' (stem (tmpName file) ++ suffix) = none) ∧
      (∀ name, name ≠ file → ¬stem file <+: name →
        texts disk' name = texts disk name) ∧
      SameOthers disk disk' := by
  obtain ⟨hremoved, hothers⟩ := removeAll_spec hfs ((sidecars fs disk file).filter
    fun name => name ≠ tmpName file && !(stem (tmpName file)).isPrefixOf name) disk
  have hold := @mem_old fs disk file hfs
  generalize hlist : (sidecars fs disk file).filter (fun name =>
    name ≠ tmpName file && !(stem (tmpName file)).isPrefixOf name) = old
    at hremoved hothers hold
  generalize hfirst : old.foldl (fun disk name => removeFile fs name disk) disk =
    first at hremoved hothers
  have hsource : texts first (tmpName file) ≠ none := by
    rw [hremoved, gone, if_neg fun hmem => ((hold _).mp hmem).2.2.1 rfl]
    exact htmp
  obtain ⟨second, hrename, hmoved, hothers'⟩ := renameFile_spec hfs hsource file
  have hcleared : ∀ name, texts second name = _ := fun name =>
    (congrFun (hmoved.trans (congrArg _ hremoved)) name).trans (cleared_eq hold name)
  have hnew : ∀ name, name ∈ sidecars fs second (tmpName file) ↔
      texts disk name ≠ none ∧ stem (tmpName file) <+: name := by
    intro name
    rw [mem_sidecars hfs]
    refine and_congr_left fun hstem => ?_
    obtain ⟨suffix, rfl⟩ := hstem
    have hne : stem (tmpName file) ++ suffix ≠ file := by
      rw [stem_tmpName]
      exact stem_ne file _
    rw [hcleared, if_neg hne, if_neg fun h => h.2 ⟨suffix, rfl⟩]
  have hnodup := nodup_sidecars hfs second (tmpName file)
  obtain ⟨third, hrun, hfinal, hothers''⟩ := renameAll_spec hfs hnodup
    (fun name hmem => ((mem_sidecars hfs).mp hmem).1) (tmpName file) file
  refine ⟨third, ?_, ?_, ?_, ?_, ?_, ?_, hothers.trans (hothers'.trans hothers'')⟩
  · rw [moveWithSidecars]
    simp only [hlist, hfirst]
    rw [hrename, andThen_of_ok rfl]
    exact hrun
  · rw [hfinal]
    exact moved_file hnew hcleared
  · intro suffix
    rw [hfinal]
    exact moved_suffix hnodup hnew hfree hcleared suffix
  · rw [hfinal]
    exact moved_tmp hnodup hnew hfree hcleared
  · intro suffix
    rw [hfinal]
    exact moved_tmp_suffix hnodup hnew hfree hcleared suffix
  · intro name hfile hstem
    rw [hfinal]
    exact moved_others hnew hcleared hfile hstem

end Runs

def written (disk : ByteDisk) (name bytes : Bytes) : ByteDisk :=
  (disk.truncate name).1.append (disk.truncate name).2 bytes

def slot : FileName := "m.slot".toList

/-- A listing in the order of the directory. -/
def quiet : FileSystem where
  list disk := some disk.names
  removes _ := true
  renames _ _ := true

theorem succeeds_quiet : Succeeds quiet :=
  ⟨fun disk => ⟨disk.names, rfl, List.Perm.refl _⟩, fun _ => rfl, fun _ _ => rfl⟩

/-- A save with one file next to it, over an earlier one with another. -/
def twoSaves : ByteDisk :=
  written (written (written (written (Disk.empty Bytes UInt8)
    (utf8 slot) [1]) (utf8 (stem slot ++ ['a'])) [2])
    (utf8 (tmpName slot)) [3]) (utf8 (stem (tmpName slot) ++ ['b'])) [4]

/-- A save without files next to it, and a file next to the earlier one that has
no UTF-8 name. -/
def oddName : ByteDisk :=
  written (written (Disk.empty Bytes UInt8) (utf8 (tmpName slot)) [3])
    (utf8 (stem slot) ++ [0xFF]) [2]

theorem noneNested_of_names {disk : ByteDisk} {file : FileName}
    (h : ∀ name ∈ disk.names,
      ¬utf8 (stem (tmpName file) ++ tmpLetters) <+: name) :
    NoneNested (texts disk) file := by
  rintro suffix ⟨rest, rfl⟩
  by_contra hsome
  refine h _ (texts_ne_none_iff.mp hsome) ⟨utf8 rest, ?_⟩
  rw [← utf8_append, List.append_assoc]

theorem moveWithSidecars_family_twoSaves :
    ∃ disk', moveWithSidecars quiet (tmpName slot) slot twoSaves = (.ok (), disk') ∧
      texts disk' slot = some [3] ∧ texts disk' (stem slot ++ ['a']) = none ∧
      texts disk' (stem slot ++ ['b']) = some [4] := by
  obtain ⟨disk', hrun, hfile, hsuffix, -⟩ :=
    @moveWithSidecars_family quiet twoSaves slot succeeds_quiet (by decide +kernel)
      (noneNested_of_names (by decide +kernel))
  refine ⟨disk', hrun, hfile.trans ?_, (hsuffix ['a']).trans ?_,
    (hsuffix ['b']).trans ?_⟩
  · decide +kernel
  · decide +kernel
  · decide +kernel

/-- The old file whose name is not UTF-8 stays, although its name begins with that
of the slot. -/
theorem oddName_stays :
    Succeeds quiet ∧ texts oddName (tmpName slot) ≠ none ∧
      NoneNested (texts oddName) slot ∧
      (moveWithSidecars quiet (tmpName slot) slot oddName).1 = .ok () ∧
      oddName.read (utf8 (stem (tmpName slot)) ++ [0xFF]) = none ∧
      (moveWithSidecars quiet (tmpName slot) slot oddName).2.read
        (utf8 (stem slot) ++ [0xFF]) = some [2] := by
  refine ⟨succeeds_quiet, by decide +kernel, noneNested_of_names (by decide +kernel),
    ?_, by decide +kernel, by decide +kernel⟩
  decide +kernel

end AssistantHub.SlotFamilies
