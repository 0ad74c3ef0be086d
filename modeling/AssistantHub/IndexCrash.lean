import AssistantHub.IndexFiles

namespace AssistantHub.IndexCrash

open AssistantHub.CrashSteps
open AssistantHub.FlatRows
open AssistantHub.F32Bytes
open AssistantHub.HeaderEncoding
open AssistantHub.IndexFiles
open AssistantHub.IndexStore
open AssistantHub.KeyedTable

/-- The indexes of a vector size that upserts and removes reach. -/
inductive Built (dims : Nat) : Index F32 → Prop where
  | new : Built dims (Index.new dims)
  | upsert {ix : Index F32} (entry : Entry) (vector : List F32) :
      Built dims ix → Built dims (ix.upsert entry vector).2
  | remove {ix : Index F32} (ids : List String) :
      Built dims ix → Built dims (ix.remove ids).2

theorem Built.wellFormed {dims : Nat} {ix : Index F32} (h : Built dims ix) :
    ix.WellFormed ∧ ix.dims = dims := by
  induction h with
  | new => exact ⟨wellFormed_new dims, rfl⟩
  | upsert entry vector _ ih =>
      exact ⟨wellFormed_upsert ih.1 entry vector, by rw [dims_upsert, ih.2]⟩
  | remove ids _ ih =>
      exact ⟨wellFormed_remove ih.1 ids, by rw [dims_remove, ih.2]⟩

/-- The directory before the save: what a complete save of `old` left in it,
or neither of the two files. -/
def Holds (json : HeaderJson) (fingerprint : String) (old : Option (Index F32))
    (dir : Dir) : Prop :=
  indexFiles dir = old.elim (none, none) fun o => savedFiles json o fingerprint

/-- A load after a kill at crash point `k` of the save of `new`: nothing, or
the map of `old` or that of `new`, and no entry with a vector that neither of
them stores with it. -/
def CrashSafe (json : HeaderJson) (fingerprint : String) (dims : Nat)
    (old : Option (Index F32)) (new : Index F32) (dir : Dir) (k : Nat) : Prop :=
  ∀ ix, Index.load json
      (cut FileOp.apply (saveOps json new fingerprint) k dir) fingerprint dims =
        some ix →
    ((∃ o, old = some o ∧ ix.SameMap o) ∨ ix.SameMap new) ∧
      ∀ r ∈ ix.rows, (∃ o, old = some o ∧ r ∈ o.rows) ∨ r ∈ new.rows

/-- The old entries read the same vectors in the new buffer as in their own,
or each of them stands in `new` with just the row that it reads there. -/
def SameReading (o new : Index F32) : Prop :=
  o.vectors = new.vectors ∨
    ∀ i e, o.entries[i]? = some e →
      new.find e.id = some (e, row new.dims new.vectors i)

theorem sameMap_of_rows_eq {F : Type} {ix jx : Index F}
    (h : ix.rows = jx.rows) : ix.SameMap jx := by
  intro id
  simp only [Index.find, h]

def overlay (o new : Index F32) : Index F32 :=
  { dims := o.dims, entries := o.entries, vectors := new.vectors
    byId := positions o.entries }

theorem overlay_wellFormed {o new : Index F32} (ho : o.WellFormed)
    (hlength : new.vectors.length = o.entries.length * o.dims) :
    (overlay o new).WellFormed :=
  { vectors_length := hlength
    ids_nodup := ho.ids_nodup
    byId_iff := lookup_positions ho.ids_nodup }

theorem rows_overlay (o new : Index F32) (i : Nat) :
    (overlay o new).rows[i]? =
      o.entries[i]?.map fun e => (e, row o.dims new.vectors i) :=
  getElem?_rows (overlay o new) i

theorem vectors_eq_of_sameMap_overlay {o new : Index F32} (ho : o.WellFormed)
    (hlength : new.vectors.length = o.entries.length * o.dims)
    (h : (overlay o new).SameMap o) : o.vectors = new.vectors := by
  apply eq_of_rows_eq ho.vectors_length hlength
  intro i hi
  obtain ⟨e, he⟩ : ∃ e, o.entries[i]? = some e :=
    ⟨_, List.getElem?_eq_getElem hi⟩
  have hmem : (e, row o.dims o.vectors i) ∈ o.rows :=
    List.mem_of_getElem? (by rw [getElem?_rows, he, Option.map_some])
  have hmem' : (e, row o.dims new.vectors i) ∈ (overlay o new).rows :=
    List.mem_of_getElem? (by rw [rows_overlay, he, Option.map_some])
  have hfind := (ho.table.find_eq_some_iff e.id _).mpr ⟨hmem, rfl⟩
  have hfind' := ((overlay_wellFormed ho hlength).table.find_eq_some_iff e.id
    _).mpr ⟨hmem', rfl⟩
  have heq : some (e, row o.dims new.vectors i) =
      some (e, row o.dims o.vectors i) :=
    hfind'.symm.trans ((h e.id).trans hfind)
  simpa using heq.symm

theorem sameMap_of_rows_subset {F : Type} {ix jx : Index F}
    (hix : ix.WellFormed) (hjx : jx.WellFormed)
    (hlength : ix.entries.length = jx.entries.length)
    (hsubset : ∀ r ∈ ix.rows, r ∈ jx.rows) : ix.SameMap jx := by
  have hnodup : ix.rows.Nodup := hix.spells.nodup.of_map
  have hperm : ix.rows.Perm jx.rows := by
    apply (hnodup.subperm hsubset).perm_of_length_le
    rw [length_rows, length_rows, hlength]
  intro id
  apply Option.ext
  intro r
  have hiff := hix.table.find_eq_some_iff id r
  have hiff' := hjx.table.find_eq_some_iff id r
  change ix.find id = some r ↔ r ∈ ix.rows ∧ rowId r = id at hiff
  change jx.find id = some r ↔ r ∈ jx.rows ∧ rowId r = id at hiff'
  rw [hiff, hiff', hperm.mem_iff]

theorem mem_rows_of_sameMap {F : Type} {ix jx : Index F} (hix : ix.WellFormed)
    (hjx : jx.WellFormed) (h : ix.SameMap jx) {r : Entry × List F}
    (hr : r ∈ ix.rows) : r ∈ jx.rows := by
  have hfind : ix.find (rowId r) = some r :=
    (hix.table.find_eq_some_iff _ r).mpr ⟨hr, rfl⟩
  rw [h (rowId r)] at hfind
  exact ((hjx.table.find_eq_some_iff _ r).mp hfind).1

theorem sameMap_overlay_iff {o new : Index F32} (ho : o.WellFormed)
    (hnew : new.WellFormed) (hdims : o.dims = new.dims)
    (hlength : new.vectors.length = o.vectors.length) :
    (overlay o new).SameMap o ∨ (overlay o new).SameMap new ↔
      SameReading o new := by
  have hsize : new.vectors.length = o.entries.length * o.dims :=
    hlength.trans ho.vectors_length
  have hover := overlay_wellFormed ho hsize
  constructor
  · rintro (hsame | hsame)
    · exact Or.inl (vectors_eq_of_sameMap_overlay ho hsize hsame)
    · right
      intro i e he
      have hmem : (e, row o.dims new.vectors i) ∈ (overlay o new).rows :=
        List.mem_of_getElem? (by rw [rows_overlay, he, Option.map_some])
      have hfind := (hover.table.find_eq_some_iff e.id _).mpr ⟨hmem, rfl⟩
      rw [← hdims]
      exact (hsame e.id).symm.trans hfind
  · rintro (hvectors | hreads)
    · left
      apply sameMap_of_rows_eq
      apply List.ext_getElem?
      intro i
      rw [rows_overlay, getElem?_rows, hvectors]
    · by_cases hzero : o.dims = 0
      · left
        have hempty : o.vectors = [] ∧ new.vectors = [] := by
          constructor
          · apply List.eq_nil_of_length_eq_zero
            rw [ho.vectors_length, hzero, Nat.mul_zero]
          · apply List.eq_nil_of_length_eq_zero
            rw [hsize, hzero, Nat.mul_zero]
        apply sameMap_of_rows_eq
        apply List.ext_getElem?
        intro i
        rw [rows_overlay, getElem?_rows, hempty.1, hempty.2]
      · right
        have hcount : o.entries.length = new.entries.length := by
          have hmul : o.entries.length * o.dims =
              new.entries.length * o.dims := by
            rw [← hsize, hnew.vectors_length, hdims]
          exact Nat.eq_of_mul_eq_mul_right (Nat.pos_of_ne_zero hzero) hmul
        apply sameMap_of_rows_subset hover hnew hcount
        intro r hr
        obtain ⟨i, hi⟩ := List.getElem?_of_mem hr
        rw [rows_overlay] at hi
        obtain ⟨e, he, rfl⟩ := Option.map_eq_some_iff.mp hi
        rw [hdims]
        exact ((hnew.table.find_eq_some_iff _ _).mp (hreads i e he)).1

theorem crashSafe_of_load_eq {json : HeaderJson} {fingerprint : String}
    {dims : Nat} {old : Option (Index F32)} {new : Index F32} {dir : Dir}
    {k : Nat}
    (hload : Index.load json
        (cut FileOp.apply (saveOps json new fingerprint) k dir) fingerprint
        dims = old ∨
      Index.load json
        (cut FileOp.apply (saveOps json new fingerprint) k dir) fingerprint
        dims = some new) :
    CrashSafe json fingerprint dims old new dir k := by
  intro ix hix
  rcases hload with hload | hload
  · have hold : old = some ix := hload.symm.trans hix
    exact ⟨Or.inl ⟨ix, hold, fun _ => rfl⟩, fun r hr => Or.inl ⟨ix, hold, hr⟩⟩
  · obtain rfl : new = ix := Option.some.inj (hload.symm.trans hix)
    exact ⟨Or.inr fun _ => rfl, fun r hr => Or.inr hr⟩

theorem load_before_renames {json : HeaderJson} {fingerprint : String}
    {dims : Nat} {old : Option (Index F32)} {dir : Dir}
    (hold : ∀ o, old = some o → Built dims o) (new : Index F32)
    (hdir : Holds json fingerprint old dir) {k : Nat} (hk : k ≤ 3) :
    Index.load json (cut FileOp.apply (saveOps json new fingerprint) k dir)
      fingerprint dims = old := by
  rw [load_congr (indexFiles_cut_of_le json new fingerprint hk dir)]
  cases old with
  | none =>
      have hnone : dir "entries.json" = none := congrArg Prod.fst hdir
      simp [Index.load, hnone]
  | some o =>
      obtain ⟨ho, rfl⟩ := (hold o rfl).wellFormed
      exact load_of_savedFiles ho hdir

/-- Between the renames `load` finds the old entries over the new vectors,
unless the two buffers differ in length. -/
theorem load_between_renames {json : HeaderJson} {fingerprint : String}
    {dims : Nat} {old : Option (Index F32)} {dir : Dir}
    (hold : ∀ o, old = some o → Built dims o) (new : Index F32)
    (hdir : Holds json fingerprint old dir) :
    Index.load json (cut FileOp.apply (saveOps json new fingerprint) 4 dir)
        fingerprint dims =
      old.bind fun o =>
        if new.vectors.length = o.vectors.length then some (overlay o new)
        else none := by
  have hfiles := indexFiles_cut_four json new fingerprint dir
  cases old with
  | none =>
      have hnone : dir "entries.json" = none := congrArg Prod.fst hdir
      rw [hnone] at hfiles
      have hentries := congrArg Prod.fst hfiles
      simp only [indexFiles] at hentries
      simp [Index.load, hentries]
  | some o =>
      obtain ⟨ho, rfl⟩ := (hold o rfl).wellFormed
      have hentries : dir "entries.json" =
          some (json.toVec ⟨fingerprint, o.dims, o.entries⟩) :=
        congrArg Prod.fst hdir
      rw [hentries] at hfiles
      rw [load_of_files hfiles, Option.bind_some, ← ho.vectors_length]
      rfl

theorem crashSafe_four_iff {json : HeaderJson} {fingerprint : String}
    {dims : Nat} {old : Option (Index F32)} {new : Index F32} {dir : Dir}
    (hold : ∀ o, old = some o → Built dims o) (hnew : Built dims new)
    (hdir : Holds json fingerprint old dir) :
    CrashSafe json fingerprint dims old new dir 4 ↔
      ∀ o, old = some o → new.vectors.length = o.vectors.length →
        SameReading o new := by
  obtain ⟨hwell, hdims⟩ := hnew.wellFormed
  have hload := load_between_renames hold new hdir
  constructor
  · rintro hsafe o rfl hlength
    obtain ⟨hwello, hdimso⟩ := (hold o rfl).wellFormed
    rw [Option.bind_some, if_pos hlength] at hload
    obtain ⟨hsame, -⟩ := hsafe _ hload
    apply (sameMap_overlay_iff hwello hwell (hdimso.trans hdims.symm)
      hlength).mp
    rcases hsame with ⟨o', ho', hsame⟩ | hsame
    · exact Or.inl (Option.some.inj ho' ▸ hsame)
    · exact Or.inr hsame
  · intro hreading ix hix
    rw [hload, Option.bind_eq_some_iff] at hix
    obtain ⟨o, rfl, hix⟩ := hix
    obtain ⟨hwello, hdimso⟩ := (hold o rfl).wellFormed
    obtain ⟨hlength, hix⟩ := Option.ite_none_right_eq_some.mp hix
    obtain rfl := Option.some.inj hix
    have hover : (overlay o new).WellFormed :=
      overlay_wellFormed hwello (hlength.trans hwello.vectors_length)
    rcases (sameMap_overlay_iff hwello hwell (hdimso.trans hdims.symm)
      hlength).mpr (hreading o rfl hlength) with hsame | hsame
    · exact ⟨Or.inl ⟨o, rfl, hsame⟩, fun r hr =>
        Or.inl ⟨o, rfl, mem_rows_of_sameMap hover hwello hsame hr⟩⟩
    · exact ⟨Or.inr hsame, fun r hr =>
        Or.inr (mem_rows_of_sameMap hover hwell hsame hr)⟩

/-- A kill is harmless exactly where it does not fall between the renames of
buffers of one length that the old entries read differently. A save that is
not cut off is read back as it is. -/
theorem crashSafe_iff {json : HeaderJson} {fingerprint : String} {dims : Nat}
    {old : Option (Index F32)} {new : Index F32} {dir : Dir}
    (hold : ∀ o, old = some o → Built dims o) (hnew : Built dims new)
    (hdir : Holds json fingerprint old dir) (k : Nat) :
    (CrashSafe json fingerprint dims old new dir k ↔
      (k = 4 → ∀ o, old = some o →
        new.vectors.length = o.vectors.length → SameReading o new)) ∧
    Index.load json (Index.save json new fingerprint none dir).2 fingerprint
      dims = some new := by
  obtain ⟨hwell, rfl⟩ := hnew.wellFormed
  have hsaved : Index.load json (Index.save json new fingerprint none dir).2
      fingerprint new.dims = some new := load_save hwell fingerprint dir
  refine ⟨?_, hsaved⟩
  rcases Nat.lt_trichotomy k 4 with hk | rfl | hk
  · have hload := load_before_renames hold new hdir
      (Nat.le_of_lt_succ hk)
    constructor
    · intro _ hfour
      omega
    · intro _
      exact crashSafe_of_load_eq (Or.inl hload)
  · rw [crashSafe_four_iff hold hnew hdir]
    simp
  · have hload : Index.load json
        (cut FileOp.apply (saveOps json new fingerprint) k dir) fingerprint
        new.dims = some new := by
      rw [cut_of_length_le FileOp.apply hk]
      exact hsaved
    constructor
    · intro _ hfour
      omega
    · intro _
      exact crashSafe_of_load_eq (Or.inr hload)

def oneMovie : Index F32 :=
  ((Index.new 1).upsert ⟨"m1", .movie, "Dune", none, none, 1⟩
    [⟨0x3f800000⟩]).2

def oneMovieChanged : Index F32 :=
  (oneMovie.upsert ⟨"m1", .movie, "Dune", none, none, 2⟩ [⟨0x40000000⟩]).2

theorem built_oneMovie : Built 1 oneMovie := .upsert _ _ .new

def oneMovieDir : Dir :=
  (Index.save compactJson oneMovie "m" none fun _ => none).2

theorem holds_oneMovie : Holds compactJson "m" (some oneMovie) oneMovieDir :=
  indexFiles_save_none compactJson oneMovie "m" _

theorem crashSafe_iff_oneMovie :
    (CrashSafe compactJson "m" 1 (some oneMovie) oneMovieChanged oneMovieDir 4 ↔
      (4 = 4 → ∀ o, some oneMovie = some o →
        oneMovieChanged.vectors.length = o.vectors.length →
        SameReading o oneMovieChanged)) ∧
    Index.load compactJson
      (Index.save compactJson oneMovieChanged "m" none oneMovieDir).2 "m" 1 =
        some oneMovieChanged :=
  crashSafe_iff (fun _ h => Option.some.inj h ▸ built_oneMovie)
    (.upsert _ _ built_oneMovie) holds_oneMovie 4

/-- A kill between the renames of a replaced movie leaves the entry of the
old text with the vector of the new one. -/
theorem not_crashSafe_oneMovie :
    Built 1 oneMovie ∧ Built 1 oneMovieChanged ∧
      Holds compactJson "m" (some oneMovie) oneMovieDir ∧
      ¬CrashSafe compactJson "m" 1 (some oneMovie) oneMovieChanged oneMovieDir
        4 := by
  have hchanged : Built 1 oneMovieChanged := .upsert _ _ built_oneMovie
  refine ⟨built_oneMovie, hchanged, holds_oneMovie, ?_⟩
  intro hsafe
  rw [crashSafe_four_iff (fun _ h => Option.some.inj h ▸ built_oneMovie)
    hchanged holds_oneMovie] at hsafe
  rcases hsafe oneMovie rfl (by decide) with hvectors | hreads
  · exact absurd hvectors (by decide)
  · exact absurd (hreads 0 _ rfl) (by decide)

end AssistantHub.IndexCrash
