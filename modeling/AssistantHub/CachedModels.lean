import AssistantHub.LossyText
import AssistantHub.TopSelection
import AssistantHub.UnicodeText
import Mathlib.Data.List.Infix
import Mathlib.Data.List.ReduceOption

namespace AssistantHub.CachedModels

open AssistantHub.LittleEndian
open AssistantHub.LossyText
open AssistantHub.TopSelection
open AssistantHub.UnicodeText

/-- A file or folder that a listing names. `isFile` follows links. -/
structure FileEntry where
  name : Bytes
  isFile : Bool
deriving DecidableEq

/-- What `read_dir` gives: an entry can fail on its own. -/
abbrev Listing (α : Type) := Option (List (Option α))

/-- An entry of `snapshots`. It has no listing if it is no directory. -/
structure Snapshot where
  name : Bytes
  files : Listing FileEntry
deriving DecidableEq

/-- The folder `snapshots` of each folder in the download cache. -/
abbrev Cache := List Char → Listing Snapshot

/-- A path below one `snapshots` folder. -/
structure Path where
  snapshot : Bytes
  file : Bytes
deriving DecidableEq

def Path.cmp : Path → Path → Ordering :=
  compareLex (compareOn Path.snapshot) (compareOn Path.file)

instance : Std.TransCmp Path.cmp :=
  inferInstanceAs
    (Std.TransCmp (compareLex (compareOn Path.snapshot) (compareOn Path.file)))

instance : Std.LawfulEqCmp Path.cmp where
  eq_of_compare {p q} h := by
    rw [Path.cmp, compareLex, Ordering.then_eq_eq] at h
    have hsnapshot : compare p.snapshot q.snapshot = .eq := h.1
    have hfile : compare p.file q.file = .eq := h.2
    rcases p with ⟨snapshot, file⟩
    rcases q with ⟨snapshot', file'⟩
    obtain rfl : snapshot = snapshot' := Std.LawfulEqCmp.eq_of_compare hsnapshot
    obtain rfl : file = file' := Std.LawfulEqCmp.eq_of_compare hfile
    rfl

/-- `split_once`: what stands before and behind the first separator. -/
def splitOnce (separator : Char) : List Char → Option (List Char × List Char)
  | [] => none
  | c :: rest =>
      if c = separator then some ([], rest)
      else (splitOnce separator rest).map fun parts => (c :: parts.1, parts.2)

variable (u : Unicode)

def nameAndTag (repo : List Char) : List Char × List Char :=
  match splitOnce ':' repo with
  | some (name, tag) => (name, u.toLowercase tag)
  | none => (repo, "q4_k_m".toList)

/-- `models--{name}`, with two hyphens for each slash. -/
def folderName (name : List Char) : List Char :=
  "models--".toList ++ name.flatMap fun c => if c = '/' then ['-', '-'] else [c]

def isModelName (tag name : List Char) : Bool :=
  let fname := u.toLowercase name
  ".gguf".toList.isSuffixOf fname && decide (tag <:+: fname) &&
    !decide ("mmproj".toList <:+: fname)

def visitFile (tag : List Char) (snapshot : Bytes) (found : List Path)
    (file : FileEntry) : Option (List Path) :=
  (toStr file.name).map fun name =>
    if isModelName u tag name then found ++ [⟨snapshot, file.name⟩] else found

def visitSnapshot (tag : List Char) (found : List Path) (snapshot : Snapshot) :
    Option (List Path) :=
  snapshot.files.bind fun files =>
    files.reduceOption.foldlM (visitFile u tag snapshot.name) found

def cachedGguf (cache : Cache) (repo : List Char) : Option Path :=
  (cache (folderName (nameAndTag u repo).1)).bind fun snapshots =>
    (snapshots.reduceOption.foldlM (visitSnapshot u (nameAndTag u repo).2) []).bind
      (greatest Path.cmp)

/-- A loop that fails on some elements and appends a part for each other one. -/
theorem foldlM_eq_some_iff {α β : Type} {step : List β → α → Option (List β)}
    {good : α → Prop} {part : α → List β}
    (hstep : ∀ found x found', step found x = some found' ↔
      good x ∧ found' = found ++ part x) (l : List α) (found found' : List β) :
    l.foldlM step found = some found' ↔
      (∀ x ∈ l, good x) ∧ found' = found ++ l.flatMap part := by
  induction l generalizing found with
  | nil =>
      rw [List.foldlM_nil, List.flatMap_nil, List.append_nil]
      constructor
      · intro h
        exact ⟨fun x hx => absurd hx List.not_mem_nil, (Option.some.inj h).symm⟩
      · rintro ⟨-, rfl⟩
        rfl
  | cons x l ih =>
      rw [List.foldlM_cons, Option.bind_eq_bind, Option.bind_eq_some_iff,
        List.forall_mem_cons, List.flatMap_cons, ← List.append_assoc]
      constructor
      · rintro ⟨found₁, hx, hrest⟩
        obtain ⟨hgood, rfl⟩ := (hstep found x found₁).mp hx
        obtain ⟨hl, hfound'⟩ := (ih _).mp hrest
        exact ⟨⟨hgood, hl⟩, hfound'⟩
      · rintro ⟨⟨hgood, hl⟩, hfound'⟩
        exact ⟨found ++ part x, (hstep _ _ _).mpr ⟨hgood, rfl⟩,
          (ih _).mpr ⟨hl, hfound'⟩⟩

/-- What one entry of a directory adds. -/
def partOfFile (tag : List Char) (snapshot : Bytes) (file : FileEntry) :
    List Path :=
  if (toStr file.name).any (isModelName u tag) then [⟨snapshot, file.name⟩] else []

theorem visitFile_eq_some_iff (tag : List Char) (snapshot : Bytes)
    (found : List Path) (file : FileEntry) (found' : List Path) :
    visitFile u tag snapshot found file = some found' ↔
      toStr file.name ≠ none ∧ found' = found ++ partOfFile u tag snapshot file := by
  rw [visitFile, partOfFile]
  rcases toStr file.name with _ | name
  · simp
  · simp only [Option.map_some, Option.some.injEq, Option.any_some, ne_eq,
      reduceCtorEq, not_false_iff, true_and]
    split
    · exact eq_comm
    · rw [List.append_nil]
      exact eq_comm

/-- What one entry of `snapshots` adds. -/
def partOfSnapshot (tag : List Char) (snapshot : Snapshot) : List Path :=
  (snapshot.files.getD []).reduceOption.flatMap (partOfFile u tag snapshot.name)

/-- A directory that can be read, with names in UTF-8 only. -/
def Snapshot.Plain (snapshot : Snapshot) : Prop :=
  ∃ files, snapshot.files = some files ∧
    ∀ file, some file ∈ files → toStr file.name ≠ none

theorem visitSnapshot_eq_some_iff (tag : List Char) (found : List Path)
    (snapshot : Snapshot) (found' : List Path) :
    visitSnapshot u tag found snapshot = some found' ↔
      snapshot.Plain ∧ found' = found ++ partOfSnapshot u tag snapshot := by
  rw [visitSnapshot, partOfSnapshot, Snapshot.Plain]
  rcases snapshot.files with _ | files
  · simp
  · rw [Option.bind_some, foldlM_eq_some_iff (visitFile_eq_some_iff u tag _)]
    simp only [List.reduceOption_mem_iff, Option.getD_some, Option.some.injEq,
      exists_eq_left']

section Search

variable (cache : Cache) (repo : List Char)

/-- An entry of `snapshots` for the model, as the file system lists it. -/
def ListsSnapshot (snapshot : Snapshot) : Prop :=
  ∃ snapshots, cache (folderName (nameAndTag u repo).1) = some snapshots ∧
    some snapshot ∈ snapshots

/-- A path in a readable directory, with a name of the wanted kind. -/
def NamedLike (snapshot : Snapshot) (file : FileEntry) : Prop :=
  ListsSnapshot u cache repo snapshot ∧
    (∃ files, snapshot.files = some files ∧ some file ∈ files) ∧
    ∃ name, toStr file.name = some name ∧
      isModelName u (nameAndTag u repo).2 name = true

/-- A path that the search can find: also a directory can have such a name. -/
def Matches (p : Path) : Prop :=
  ∃ snapshot file, NamedLike u cache repo snapshot file ∧
    p = ⟨snapshot.name, file.name⟩

/-- A model file that is there. -/
def Downloaded (p : Path) : Prop :=
  ∃ snapshot file, NamedLike u cache repo snapshot file ∧ file.isFile = true ∧
    p = ⟨snapshot.name, file.name⟩

/-- Some entry of `snapshots` is no readable directory, or some name in one is
not UTF-8. -/
def Foreign : Prop :=
  ∃ snapshot, ListsSnapshot u cache repo snapshot ∧ ¬snapshot.Plain

variable {u cache repo}

theorem Downloaded.matches {p : Path} (h : Downloaded u cache repo p) :
    Matches u cache repo p := by
  obtain ⟨snapshot, file, hnamed, -, hp⟩ := h
  exact ⟨snapshot, file, hnamed, hp⟩

theorem mem_partOfSnapshot {tag : List Char} {snapshot : Snapshot} {p : Path} :
    p ∈ partOfSnapshot u tag snapshot ↔
      ∃ file, (∃ files, snapshot.files = some files ∧ some file ∈ files) ∧
        (∃ name, toStr file.name = some name ∧ isModelName u tag name = true) ∧
        p = ⟨snapshot.name, file.name⟩ := by
  have hpart (file : FileEntry) : p ∈ partOfFile u tag snapshot.name file ↔
      (∃ name, toStr file.name = some name ∧ isModelName u tag name = true) ∧
        p = ⟨snapshot.name, file.name⟩ := by
    rw [partOfFile, ← Option.any_eq_true]
    by_cases hname : (toStr file.name).any (isModelName u tag) = true
    · rw [if_pos hname, List.mem_singleton, and_iff_right hname]
    · rw [if_neg hname]
      exact ⟨fun h => absurd h List.not_mem_nil, fun h => absurd h.1 hname⟩
  have hfiles (file : FileEntry) : some file ∈ snapshot.files.getD [] ↔
      ∃ files, snapshot.files = some files ∧ some file ∈ files := by
    rcases snapshot.files with _ | files <;> simp
  rw [partOfSnapshot, List.mem_flatMap]
  simp only [List.reduceOption_mem_iff, hpart, hfiles]

theorem matches_iff {p : Path} :
    Matches u cache repo p ↔
      ∃ snapshots, cache (folderName (nameAndTag u repo).1) = some snapshots ∧
        p ∈ snapshots.reduceOption.flatMap
          (partOfSnapshot u (nameAndTag u repo).2) := by
  simp only [List.mem_flatMap, List.reduceOption_mem_iff, mem_partOfSnapshot]
  constructor
  · rintro ⟨snapshot, file, ⟨⟨snapshots, hsnapshots, hmem⟩, hfile, hname⟩, hp⟩
    exact ⟨snapshots, hsnapshots, snapshot, hmem, file, hfile, hname, hp⟩
  · rintro ⟨snapshots, hsnapshots, snapshot, hmem, file, hfile, hname, hp⟩
    exact ⟨snapshot, file, ⟨⟨snapshots, hsnapshots, hmem⟩, hfile, hname⟩, hp⟩

theorem cachedGguf_of_plain (hplain : ¬Foreign u cache repo)
    {snapshots : List (Option Snapshot)}
    (hsnapshots : cache (folderName (nameAndTag u repo).1) = some snapshots) :
    cachedGguf u cache repo = greatest Path.cmp
      (snapshots.reduceOption.flatMap (partOfSnapshot u (nameAndTag u repo).2)) := by
  have hloop := (foldlM_eq_some_iff
    (visitSnapshot_eq_some_iff u (nameAndTag u repo).2) snapshots.reduceOption []
    _).mpr ⟨?_, rfl⟩
  · rw [cachedGguf, hsnapshots, Option.bind_some, hloop, Option.bind_some,
      List.nil_append]
  · intro snapshot hsnapshot
    by_contra hforeign
    exact hplain ⟨snapshot, ⟨snapshots, hsnapshots,
      List.reduceOption_mem_iff.mp hsnapshot⟩, hforeign⟩

/-- One foreign entry ends the search, wherever it is listed. -/
theorem cachedGguf_of_foreign (hforeign : Foreign u cache repo) :
    cachedGguf u cache repo = none := by
  obtain ⟨snapshot, ⟨snapshots, hsnapshots, hmem⟩, hforeign⟩ := hforeign
  rw [cachedGguf, hsnapshots, Option.bind_some]
  rcases hloop : snapshots.reduceOption.foldlM
    (visitSnapshot u (nameAndTag u repo).2) [] with _ | found
  · rfl
  · have hplain := ((foldlM_eq_some_iff
      (visitSnapshot_eq_some_iff u (nameAndTag u repo).2) _ _ _).mp hloop).1
    exact absurd (hplain snapshot (List.reduceOption_mem_iff.mpr hmem)) hforeign

theorem cachedGguf_eq_some_iff {p : Path} :
    cachedGguf u cache repo = some p ↔
      ¬Foreign u cache repo ∧ Matches u cache repo p ∧
        ∀ q, Matches u cache repo q → (q.cmp p).isLE = true := by
  simp only [matches_iff]
  by_cases hforeign : Foreign u cache repo
  · rw [cachedGguf_of_foreign hforeign]
    exact ⟨fun h => absurd h (Option.some_ne_none p).symm,
      fun h => absurd hforeign h.1⟩
  · rcases hsnapshots : cache (folderName (nameAndTag u repo).1) with _ | snapshots
    · rw [cachedGguf, hsnapshots]
      simp
    · rw [cachedGguf_of_plain hforeign hsnapshots, greatest_eq_some_iff,
        and_iff_right hforeign]
      simp only [Option.some.injEq, exists_eq_left']

theorem cachedGguf_congr {cache' : Cache}
    (hforeign : Foreign u cache repo ↔ Foreign u cache' repo)
    (hmatches : ∀ p, Matches u cache repo p ↔ Matches u cache' repo p) :
    cachedGguf u cache repo = cachedGguf u cache' repo := by
  refine Option.ext fun p => ?_
  simp only [cachedGguf_eq_some_iff, hforeign, hmatches]

theorem exists_cachedGguf (hplain : ¬Foreign u cache repo) {p : Path}
    (hp : Matches u cache repo p) : ∃ q, cachedGguf u cache repo = some q := by
  obtain ⟨snapshots, hsnapshots, hmem⟩ := matches_iff.mp hp
  rw [cachedGguf_of_plain hplain hsnapshots, ← Option.ne_none_iff_exists', ne_eq,
    greatest_eq_none_iff]
  exact List.ne_nil_of_mem hmem

end Search

/-- The directory with what has a name in UTF-8, if it can be read. -/
def Snapshot.withoutForeign (snapshot : Snapshot) : Option Snapshot :=
  snapshot.files.map fun files => ⟨snapshot.name,
    some (files.filter fun file => file.any fun file => (toStr file.name).isSome)⟩

/-- The cache as if nothing foreign had been put there. -/
def Cache.withoutForeign (cache : Cache) : Cache := fun name =>
  (cache name).map fun snapshots =>
    (snapshots.reduceOption.filterMap Snapshot.withoutForeign).map some

/-- The cache with the same entries in another order. -/
def Cache.reordered (cache : Cache)
    (snapshotOrder : List (Option Snapshot) → List (Option Snapshot))
    (fileOrder : Bytes → List (Option FileEntry) → List (Option FileEntry)) :
    Cache := fun name =>
  (cache name).map fun snapshots =>
    snapshotOrder (snapshots.map (Option.map fun snapshot =>
      ⟨snapshot.name, snapshot.files.map (fileOrder snapshot.name)⟩))

section Found

variable {u}
variable {cache : Cache} {repo : List Char}

theorem listsSnapshot_withoutForeign {snapshot : Snapshot} :
    ListsSnapshot u cache.withoutForeign repo snapshot ↔
      ∃ listed, ListsSnapshot u cache repo listed ∧
        listed.withoutForeign = some snapshot := by
  rw [ListsSnapshot, Cache.withoutForeign]
  simp only [Option.map_eq_some_iff, ListsSnapshot]
  constructor
  · rintro ⟨_, ⟨snapshots, hsnapshots, rfl⟩, hmem⟩
    obtain ⟨kept, hkept, heq⟩ := List.mem_map.mp hmem
    obtain rfl := Option.some.inj heq
    obtain ⟨listed, hlisted, hsome⟩ := List.mem_filterMap.mp hkept
    exact ⟨listed, ⟨snapshots, hsnapshots, List.reduceOption_mem_iff.mp hlisted⟩,
      hsome⟩
  · rintro ⟨listed, ⟨snapshots, hsnapshots, hmem⟩, hsome⟩
    exact ⟨_, ⟨snapshots, hsnapshots, rfl⟩, List.mem_map_of_mem
      (List.mem_filterMap.mpr ⟨listed, List.reduceOption_mem_iff.mpr hmem, hsome⟩)⟩

theorem not_foreign_withoutForeign : ¬Foreign u cache.withoutForeign repo := by
  rintro ⟨snapshot, hlists, hforeign⟩
  obtain ⟨listed, -, hsome⟩ := listsSnapshot_withoutForeign.mp hlists
  obtain ⟨files, -, rfl⟩ := Option.map_eq_some_iff.mp hsome
  refine hforeign ⟨_, rfl, ?_⟩
  intro file hfile
  exact Option.isSome_iff_ne_none.mp (List.mem_filter.mp hfile).2

theorem matches_withoutForeign {p : Path} :
    Matches u cache.withoutForeign repo p ↔ Matches u cache repo p := by
  constructor
  · rintro ⟨snapshot, file, ⟨hlists, ⟨files, hfiles, hfile⟩, hname⟩, rfl⟩
    obtain ⟨listed, hlisted, hsome⟩ := listsSnapshot_withoutForeign.mp hlists
    obtain ⟨all, hall, rfl⟩ := Option.map_eq_some_iff.mp hsome
    obtain rfl := Option.some.inj hfiles
    exact ⟨listed, file, ⟨hlisted, ⟨all, hall, (List.mem_filter.mp hfile).1⟩, hname⟩,
      rfl⟩
  · rintro ⟨snapshot, file, ⟨hlists, ⟨files, hfiles, hfile⟩, hname⟩, rfl⟩
    refine ⟨_, file, ⟨listsSnapshot_withoutForeign.mpr ⟨snapshot, hlists,
      Option.map_eq_some_iff.mpr ⟨files, hfiles, rfl⟩⟩, ⟨_, rfl, ?_⟩, hname⟩, rfl⟩
    obtain ⟨name, hname, -⟩ := hname
    refine List.mem_filter.mpr ⟨hfile, ?_⟩
    show (toStr file.name).isSome = true
    rw [hname]
    rfl

section Order

variable {snapshotOrder : List (Option Snapshot) → List (Option Snapshot)}
variable {fileOrder : Bytes → List (Option FileEntry) → List (Option FileEntry)}

theorem listsSnapshot_reordered (hsnapshots : ∀ l, (snapshotOrder l).Perm l)
    {snapshot : Snapshot} :
    ListsSnapshot u (cache.reordered snapshotOrder fileOrder) repo snapshot ↔
      ∃ listed, ListsSnapshot u cache repo listed ∧
        snapshot = ⟨listed.name, listed.files.map (fileOrder listed.name)⟩ := by
  rw [ListsSnapshot, Cache.reordered]
  simp only [Option.map_eq_some_iff, ListsSnapshot]
  constructor
  · rintro ⟨_, ⟨snapshots, hlisted, rfl⟩, hmem⟩
    obtain ⟨_, hlistedMem, heq⟩ := List.mem_map.mp ((hsnapshots _).mem_iff.mp hmem)
    obtain ⟨listed, rfl, rfl⟩ := Option.map_eq_some_iff.mp heq
    exact ⟨listed, ⟨snapshots, hlisted, hlistedMem⟩, rfl⟩
  · rintro ⟨listed, ⟨snapshots, hlisted, hmem⟩, rfl⟩
    exact ⟨_, ⟨snapshots, hlisted, rfl⟩,
      (hsnapshots _).mem_iff.mpr (List.mem_map.mpr ⟨some listed, hmem, rfl⟩)⟩

theorem exists_files_reordered (hfiles : ∀ name l, (fileOrder name l).Perm l)
    {snapshot : Snapshot} {P : List (Option FileEntry) → Prop}
    (hP : ∀ l m, l.Perm m → P l → P m) :
    (∃ files, snapshot.files.map (fileOrder snapshot.name) = some files ∧ P files) ↔
      ∃ files, snapshot.files = some files ∧ P files := by
  simp only [Option.map_eq_some_iff]
  constructor
  · rintro ⟨_, ⟨files, hsome, rfl⟩, h⟩
    exact ⟨files, hsome, hP _ _ (hfiles _ _) h⟩
  · rintro ⟨files, hsome, h⟩
    exact ⟨_, ⟨files, hsome, rfl⟩, hP _ _ (hfiles _ _).symm h⟩

/-- The order of the listings does not count. -/
theorem cachedGguf_reordered (hsnapshots : ∀ l, (snapshotOrder l).Perm l)
    (hfiles : ∀ name l, (fileOrder name l).Perm l) :
    cachedGguf u (cache.reordered snapshotOrder fileOrder) repo =
      cachedGguf u cache repo := by
  have hplain (snapshot : Snapshot) :
      (Snapshot.mk snapshot.name (snapshot.files.map (fileOrder snapshot.name))).Plain ↔
        snapshot.Plain :=
    exists_files_reordered hfiles fun l m hperm h file hfile =>
      h file (hperm.mem_iff.mpr hfile)
  have hmem (snapshot : Snapshot) (file : FileEntry) :
      (∃ files, snapshot.files.map (fileOrder snapshot.name) = some files ∧
        some file ∈ files) ↔
      ∃ files, snapshot.files = some files ∧ some file ∈ files :=
    exists_files_reordered hfiles fun l m hperm => hperm.mem_iff.mp
  refine cachedGguf_congr ?_ fun p => ?_
  · constructor
    · rintro ⟨snapshot, hlists, hforeign⟩
      obtain ⟨listed, hlisted, rfl⟩ := (listsSnapshot_reordered hsnapshots).mp hlists
      exact ⟨listed, hlisted, fun h => hforeign ((hplain listed).mpr h)⟩
    · rintro ⟨listed, hlisted, hforeign⟩
      exact ⟨_, (listsSnapshot_reordered hsnapshots).mpr ⟨listed, hlisted, rfl⟩,
        fun h => hforeign ((hplain listed).mp h)⟩
  · constructor
    · rintro ⟨snapshot, file, ⟨hlists, hfile, hname⟩, rfl⟩
      obtain ⟨listed, hlisted, rfl⟩ := (listsSnapshot_reordered hsnapshots).mp hlists
      exact ⟨listed, file, ⟨hlisted, (hmem listed file).mp hfile, hname⟩, rfl⟩
    · rintro ⟨listed, file, ⟨hlisted, hfile, hname⟩, rfl⟩
      exact ⟨_, file, ⟨(listsSnapshot_reordered hsnapshots).mpr ⟨listed, hlisted, rfl⟩,
        (hmem listed file).mpr hfile, hname⟩, rfl⟩

end Order

/-- The downloaded model is found whatever else is in the cache. -/
structure Found (u : Unicode) (cache : Cache) (repo : List Char) : Prop where
  some_iff : (∃ p, cachedGguf u cache repo = some p) ↔ ∃ p, Downloaded u cache repo p
  greatest : ∀ p, cachedGguf u cache repo = some p →
    Downloaded u cache repo p ∧
      ∀ q, Downloaded u cache repo q → (q.cmp p).isLE = true
  foreign : cachedGguf u cache.withoutForeign repo = cachedGguf u cache repo
  order : ∀ snapshotOrder fileOrder, (∀ l, (snapshotOrder l).Perm l) →
    (∀ name l, (fileOrder name l).Perm l) →
    cachedGguf u (cache.reordered snapshotOrder fileOrder) repo =
      cachedGguf u cache repo

/-- Nothing foreign stands beside a name that the search looks for, and what
only has such a name is not the greatest. -/
structure Undisturbed (u : Unicode) (cache : Cache) (repo : List Char) : Prop where
  plain : Foreign u cache repo → ∀ p, ¬Matches u cache repo p
  files : ∀ p, Matches u cache repo p → ¬Downloaded u cache repo p →
    ∃ q, Downloaded u cache repo q ∧ p.cmp q = .lt

theorem Undisturbed.downloaded (h : Undisturbed u cache repo) {p : Path}
    (hp : cachedGguf u cache repo = some p) : Downloaded u cache repo p := by
  obtain ⟨-, hmatches, hgreatest⟩ := cachedGguf_eq_some_iff.mp hp
  by_contra hnot
  obtain ⟨q, hq, hlt⟩ := h.files p hmatches hnot
  have hle := hgreatest q hq.matches
  rw [Std.OrientedCmp.gt_of_lt hlt] at hle
  exact absurd hle (by decide)

theorem Undisturbed.found (h : Undisturbed u cache repo) : Found u cache repo where
  some_iff := by
    constructor
    · rintro ⟨p, hp⟩
      exact ⟨p, h.downloaded hp⟩
    · rintro ⟨p, hp⟩
      exact exists_cachedGguf (fun hforeign => h.plain hforeign p hp.matches) hp.matches
  greatest p hp :=
    ⟨h.downloaded hp, fun q hq => (cachedGguf_eq_some_iff.mp hp).2.2 q hq.matches⟩
  foreign := by
    by_cases hmatches : ∃ p, Matches u cache repo p
    · obtain ⟨p, hp⟩ := hmatches
      refine cachedGguf_congr ?_ fun q => matches_withoutForeign
      exact iff_of_false not_foreign_withoutForeign fun hforeign => h.plain hforeign p hp
    · have hnone (p : Path) : ¬Matches u cache repo p := fun hp => hmatches ⟨p, hp⟩
      refine Option.ext fun p => ?_
      simp only [cachedGguf_eq_some_iff, matches_withoutForeign, hnone, false_and,
        and_false]
  order _ _ := cachedGguf_reordered

theorem Found.undisturbed (h : Found u cache repo) : Undisturbed u cache repo where
  plain hforeign p hp := by
    obtain ⟨q, hq⟩ := exists_cachedGguf not_foreign_withoutForeign
      (matches_withoutForeign.mpr hp)
    rw [h.foreign, cachedGguf_of_foreign hforeign] at hq
    exact absurd hq (Option.some_ne_none q).symm
  files p hp hnot := by
    obtain ⟨q, hq⟩ := exists_cachedGguf not_foreign_withoutForeign
      (matches_withoutForeign.mpr hp)
    rw [h.foreign] at hq
    obtain ⟨hdownloaded, -⟩ := h.greatest q hq
    have hle := (cachedGguf_eq_some_iff.mp hq).2.2 p hp
    refine ⟨q, hdownloaded, ?_⟩
    rcases hcmp : p.cmp q with _ | _ | _
    · rfl
    · obtain rfl := Std.LawfulEqCmp.eq_of_compare hcmp
      exact absurd hdownloaded hnot
    · rw [hcmp] at hle
      exact absurd hle (by decide)

end Found

theorem found_iff_undisturbed (u : Unicode) (cache : Cache) (repo : List Char) :
    Found u cache repo ↔ Undisturbed u cache repo :=
  ⟨Found.undisturbed, Undisturbed.found⟩

/-- The download of one model, and a file that a file manager left beside it. -/
def strayFile : Cache := fun name =>
  if name = "models--inclusionAI--Ling-3.0-tiny-GGUF".toList then
    some [
      some ⟨utf8 "abc".toList,
        some [some ⟨utf8 "Ling-3.0-tiny-Q4_K_M.gguf".toList, true⟩]⟩,
      some ⟨utf8 ".DS_Store".toList, none⟩]
  else none

theorem not_found_beside_strayFile :
    ¬Found .asciiHan strayFile "inclusionAI/Ling-3.0-tiny-GGUF:Q4_K_M".toList := by
  have hsnapshots : strayFile (folderName (nameAndTag .asciiHan
      "inclusionAI/Ling-3.0-tiny-GGUF:Q4_K_M".toList).1) = some _ := rfl
  intro h
  have hforeign : Foreign .asciiHan strayFile
      "inclusionAI/Ling-3.0-tiny-GGUF:Q4_K_M".toList := by
    refine ⟨⟨utf8 ".DS_Store".toList, none⟩,
      ⟨_, hsnapshots, List.mem_cons_of_mem _ (List.mem_singleton_self _)⟩, ?_⟩
    rintro ⟨files, hfiles, -⟩
    exact absurd hfiles (Option.some_ne_none files).symm
  obtain ⟨p, hp⟩ := h.some_iff.mpr ⟨_, ⟨utf8 "abc".toList, _⟩,
    ⟨utf8 "Ling-3.0-tiny-Q4_K_M.gguf".toList, true⟩,
    ⟨⟨_, hsnapshots, List.mem_cons_self⟩, ⟨_, rfl, List.mem_cons_self⟩,
      _, toStr_utf8 _, by decide +kernel⟩, rfl, rfl⟩
  rw [cachedGguf_of_foreign hforeign] at hp
  exact absurd hp (Option.some_ne_none p).symm

end AssistantHub.CachedModels
