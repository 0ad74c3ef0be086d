import AssistantHub.GgufHeader

namespace AssistantHub.GgufCheck

open AssistantHub.BuildArithmetic
open AssistantHub.Fallible
open AssistantHub.FileReaders
open AssistantHub.GgufHeader

/-- What the table says of a tensor. -/
structure Tensor where
  dims : List Nat
  kind : Nat
  offset : Nat

/-- The bytes of a tensor of a known type, when its elements are counted as
`count` does. -/
def Tensor.bytes (count : Nat → Nat) (t : Tensor) : Option Nat :=
  (typeSize t.kind).map fun (block, size) => count t.dims.prod / block * size

section Table

variable (file : File)

def readDims : Nat → Reader (List Nat)
  | 0 => return []
  | n + 1 => do
      let d ← u64 file
      let dims ← readDims n
      return d :: dims

def readTensor : Reader Tensor := do
  let _name ← string file
  let n ← u32 file
  let dims ← readDims file n
  let kind ← u32 file
  let offset ← u64 file
  return ⟨dims, kind, offset⟩

/-- The tensors that can be read, and the end of the table or what is wrong
with it. -/
def readTable : Nat → Nat → List Tensor × Except Failure Nat
  | 0, pos => ([], .ok pos)
  | n + 1, pos =>
      match readTensor file pos with
      | .error failure => ([], .error failure)
      | .ok (t, next) => ((readTable n next).1.cons t, (readTable n next).2)

structure Header where
  alignment : Nat
  tensors : List Tensor
  finish : Except Failure Nat

def readHeader : Except Failure Header := do
  let ((tensors, alignment), pos) ← readPreamble file 0
  return ⟨alignment, (readTable file tensors pos).1, (readTable file tensors pos).2⟩

end Table

/-- Where the data of the tensors starts, after a table that ends at `finish`. -/
def Header.start (h : Header) (finish : Nat) : Nat := roundUp finish h.alignment

/-- The file has a whole header and is as long as the header declares. -/
def Covered (file : File) : Prop :=
  ∃ h finish, readHeader file = .ok h ∧ h.finish = .ok finish ∧
    ∀ t ∈ h.tensors, ∀ n ∈ t.bytes id,
      h.start finish + t.offset + n ≤ file.bytes.length

/-- The check does not panic and accepts only files that are long enough. -/
def Sound (build : Build) (file : File) : Prop :=
  ∀ path, check build path (some file) ≠ .panics ∧
    (check build path (some file) = .accepts → Covered file)

/-- The sizes that the header declares can be computed in words, with element
counts that are capped at the largest word. -/
structure Countable (file : File) (h : Header) : Prop where
  sizes : ∀ t ∈ h.tensors, ∀ n ∈ t.bytes cap, n < 2 ^ 64
  ends : ∀ finish, h.finish = .ok finish → ∀ t ∈ h.tensors, ∀ n ∈ t.bytes cap,
    h.start finish + t.offset + n < 2 ^ 64
  /-- A tensor whose count is capped is not too long, or another one is. -/
  capped : ∀ finish, h.finish = .ok finish →
    ∀ t ∈ h.tensors, 2 ^ 64 ≤ t.dims.prod → ∀ n ∈ t.bytes id,
      h.start finish + t.offset + n ≤ file.bytes.length ∨
        ∃ t' ∈ h.tensors, ∃ n' ∈ t'.bytes cap,
          file.bytes.length < h.start finish + t'.offset + n'

section Preamble

variable {file : File}

theorem reads_readEntry {alignment : Nat} (h : 0 < alignment ∧ alignment < 2 ^ 64) :
    Reads file (readEntry file alignment) fun a => 0 < a ∧ a < 2 ^ 64 := by
  refine reads_string.bind fun key _ => reads_u32.bind fun t _ => ?_
  split
  · rename_i n hn _
    refine (Reads.readExact _ n).bind fun buf hbuf => Reads.pure ?_
    have hle : n ≤ 8 := by
      rw [scalarSize.eq_def] at hn
      split at hn <;> simp at hn <;> omega
    have hlt : LittleEndian.leNat buf < 2 ^ (8 * 8) :=
      leNat_lt_of_length_le (hbuf.trans hle)
    omega
  · exact (reads_skipValue _ t).bind fun _ _ => Reads.pure h

theorem reads_readMetadata (kvs : Nat) {alignment : Nat}
    (h : 0 < alignment ∧ alignment < 2 ^ 64) :
    Reads file (readMetadata file kvs alignment) fun a => 0 < a ∧ a < 2 ^ 64 := by
  induction kvs generalizing alignment with
  | zero => exact Reads.pure h
  | succ kvs ih => exact (reads_readEntry h).bind fun a ha => ih ha

theorem reads_readCounts :
    Reads file (readCounts file) fun r => 0 < r.2 ∧ r.2 < 2 ^ 64 := by
  refine reads_u32.bind fun _ _ => reads_u64.bind fun tensors _ => ?_
  refine reads_u64.bind fun kvs _ => ?_
  exact (reads_readMetadata kvs (by omega)).bind fun a ha => Reads.pure ha

theorem reads_readPreamble :
    Reads file (readPreamble file) fun r => 0 < r.2 ∧ r.2 < 2 ^ 64 := by
  refine (reads_bytes 4).bind fun start _ => ?_
  split
  · exact Reads.fail _
  · exact reads_readCounts

theorem pos_of_readPreamble {r : Nat × Nat} {pos : Nat}
    (h : readPreamble file 0 = .ok (r, pos)) : 0 < pos := by
  obtain ⟨start, next, hstart, hrest⟩ := reader_bind_eq_ok.mp h
  obtain ⟨-, -, rfl⟩ := readExact_eq_ok.mp hstart
  split at hrest
  · cases hrest
  · have hforward := reads_readCounts.forward hrest
    omega

end Preamble

section Loop

variable {file : File} {build : Build}

/-- `max_end` after a tensor of the table. -/
def addTensor (build : Build) (maxEnd : Nat) (t : Tensor) : Except Failure Nat :=
  grow build maxEnd (cap t.dims.prod) t.kind t.offset

theorem readElems_eq (n elems : Nat) :
    readElems file n elems =
      (fun dims : List Nat => dims.foldl saturatingMul elems) <$> readDims file n := by
  induction n generalizing elems with
  | zero => rfl
  | succ n ih =>
      rw [readElems, readDims, map_bind]
      refine bind_congr fun d => ?_
      rw [ih, map_bind, ← bind_pure_comp]
      rfl

theorem readTensors_succ (n maxEnd : Nat) :
    readTensors file build (n + 1) maxEnd = (do
      let t ← readTensor file
      let maxEnd ← (addTensor build maxEnd t : Except Failure Nat)
      readTensors file build n maxEnd) := by
  rw [readTensors, readTensor]
  simp only [bind_assoc, pure_bind, readElems_eq, bind_map_left, addTensor]
  have hone : ∀ dims : List Nat, dims.foldl saturatingMul 1 = cap dims.prod := by
    intro dims
    have h := foldl_saturatingMul dims 1
    rwa [cap_of_lt (by omega), Nat.one_mul] at h
  simp only [hone]

/-- Reading the table and adding up its tensors in one loop is to do the one
after the other. -/
theorem readTensors_run (n maxEnd pos : Nat) :
    readTensors file build n maxEnd pos = (do
      let maxEnd ← (readTable file n pos).1.foldlM (addTensor build) maxEnd
      let finish ← (readTable file n pos).2
      return (maxEnd, finish)) := by
  induction n generalizing maxEnd pos with
  | zero => rfl
  | succ n ih =>
      rw [readTensors_succ, bind_run, readTable]
      cases readTensor file pos with
      | error failure => rfl
      | ok r =>
          obtain ⟨t, next⟩ := r
          simp only [List.foldlM_cons]
          change ((addTensor build maxEnd t : Reader Nat) >>= _) next = _
          rw [bind_run]
          cases haddTensor : addTensor build maxEnd t with
          | error failure => rfl
          | ok m => exact ih m next

theorem addTensor_eq (maxEnd : Nat) (t : Tensor) :
    addTensor build maxEnd t =
      match t.bytes cap with
      | none => .ok maxEnd
      | some n => do
          let bytes ← word build n
          return max maxEnd (saturatingAdd t.offset bytes) := by
  rw [addTensor, grow, Tensor.bytes]
  cases typeSize t.kind with
  | none => rfl
  | some entry => rfl

theorem addTensor_of_none {t : Tensor} (h : t.bytes cap = none) (maxEnd : Nat) :
    addTensor build maxEnd t = .ok maxEnd := by
  rw [addTensor_eq, h]

theorem addTensor_of_lt {t : Tensor} {n : Nat} (h : t.bytes cap = some n)
    (hn : n < 2 ^ 64) (maxEnd : Nat) :
    addTensor build maxEnd t = .ok (max maxEnd (saturatingAdd t.offset n)) := by
  rw [addTensor_eq, h]
  simp only [word_of_lt hn]
  rfl

theorem addTensor_debug_of_le {t : Tensor} {n : Nat} (h : t.bytes cap = some n)
    (hn : 2 ^ 64 ≤ n) (maxEnd : Nat) : addTensor .debug maxEnd t = .error .panic := by
  rw [addTensor_eq, h]
  simp only [word_debug_of_le hn]
  rfl

theorem foldlM_addTensor {ts : List Tensor}
    (h : ∀ t ∈ ts, ∀ n ∈ t.bytes cap, n < 2 ^ 64) (maxEnd : Nat) :
    ∃ last, ts.foldlM (addTensor build) maxEnd = .ok last ∧
      ∀ bound, last ≤ bound ↔
        maxEnd ≤ bound ∧
          ∀ t ∈ ts, ∀ n ∈ t.bytes cap, saturatingAdd t.offset n ≤ bound := by
  induction ts generalizing maxEnd with
  | nil => exact ⟨maxEnd, rfl, by simp⟩
  | cons t ts ih =>
      rw [List.forall_mem_cons] at h
      simp only [List.foldlM_cons, List.forall_mem_cons]
      cases hbytes : t.bytes cap with
      | none =>
          rw [addTensor_of_none hbytes]
          obtain ⟨last, hlast, hbound⟩ := ih h.2 maxEnd
          exact ⟨last, hlast, by simpa using hbound⟩
      | some n =>
          rw [addTensor_of_lt hbytes (h.1 n hbytes)]
          obtain ⟨last, hlast, hbound⟩ :=
            ih h.2 (max maxEnd (saturatingAdd t.offset n))
          refine ⟨last, hlast, ?_⟩
          intro bound
          rw [hbound, Nat.max_le, and_assoc]
          simp

theorem foldlM_addTensor_debug {ts : List Tensor} {t : Tensor} (ht : t ∈ ts) {n : Nat}
    (hn : n ∈ t.bytes cap) (hlarge : 2 ^ 64 ≤ n) (maxEnd : Nat) :
    ts.foldlM (addTensor .debug) maxEnd = .error .panic := by
  induction ts generalizing maxEnd with
  | nil => cases ht
  | cons first ts ih =>
      rw [List.foldlM_cons]
      rcases List.mem_cons.mp ht with rfl | ht
      · rw [addTensor_debug_of_le hn hlarge]
        rfl
      · cases hbytes : first.bytes cap with
        | none =>
            rw [addTensor_of_none hbytes]
            exact ih ht maxEnd
        | some size =>
            rcases Nat.lt_or_ge size (2 ^ 64) with hlt | hge
            · rw [addTensor_of_lt hbytes hlt]
              exact ih ht _
            · rw [addTensor_debug_of_le hbytes hge]
              rfl

end Loop

section Headers

variable {file : File}

theorem reads_readDims (n : Nat) : Reads file (readDims file n) fun _ => True := by
  induction n with
  | zero => exact Reads.pure trivial
  | succ n ih => exact reads_u64.bind fun _ _ => ih.bind fun _ _ => Reads.pure trivial

theorem reads_readTensor : Reads file (readTensor file) fun _ => True :=
  reads_string.bind fun _ _ => reads_u32.bind fun n _ =>
    (reads_readDims n).bind fun _ _ => reads_u32.bind fun _ _ =>
      reads_u64.bind fun _ _ => Reads.pure trivial

theorem readTable_no_panic (n pos : Nat) :
    (readTable file n pos).2 ≠ .error .panic := by
  induction n generalizing pos with
  | zero => exact nofun
  | succ n ih =>
      rw [readTable]
      cases hread : readTensor file pos with
      | error failure =>
          intro h
          exact reads_readTensor.no_panic pos
            (hread.trans (congrArg _ (Except.error.inj h)))
      | ok r => exact ih r.2

theorem readTable_moves {n pos finish : Nat} (h : (readTable file n pos).2 = .ok finish) :
    pos ≤ finish ∧ (pos ≤ file.maxPos → finish ≤ file.maxPos) := by
  induction n generalizing pos with
  | zero =>
      cases h
      exact ⟨Nat.le_refl _, id⟩
  | succ n ih =>
      rw [readTable] at h
      cases hread : readTensor file pos with
      | error failure =>
          rw [hread] at h
          cases h
      | ok r =>
          rw [hread] at h
          obtain ⟨hforward, hbounded⟩ := ih h
          exact ⟨(reads_readTensor.forward hread).trans hforward,
            fun hpos => hbounded (reads_readTensor.bounded hread hpos)⟩

/-- What holds of every header that can be read. -/
structure Header.Bounded (h : Header) : Prop where
  alignment_pos : 0 < h.alignment
  alignment_lt : h.alignment < 2 ^ 64
  finish_no_panic : h.finish ≠ .error .panic
  finish_pos : ∀ {finish}, h.finish = .ok finish → 0 < finish
  finish_lt : ∀ {finish}, h.finish = .ok finish → finish < 2 ^ 63

theorem bounded_of_readHeader {h : Header} (hheader : readHeader file = .ok h) :
    h.Bounded := by
  obtain ⟨⟨⟨tensors, alignment⟩, pos⟩, hpreamble, hrest⟩ := bind_eq_ok.mp hheader
  cases hrest
  have hpos := pos_of_readPreamble hpreamble
  have hmax := reads_readPreamble.bounded hpreamble (Nat.zero_le _)
  obtain ⟨hapos, halt⟩ := reads_readPreamble.result hpreamble
  refine ⟨hapos, halt, readTable_no_panic _ _, ?_, ?_⟩
  · intro finish hfinish
    exact hpos.trans_le (readTable_moves hfinish).1
  · intro finish hfinish
    exact ((readTable_moves hfinish).2 hmax).trans_lt file.maxPos_lt

theorem align_eq {build : Build} {start alignment : Nat} (h : 0 < alignment)
    (hlt : alignment < 2 ^ 64) (hstart : start < 2 ^ 63) :
    align build start alignment = .ok (roundUp start alignment) := by
  have hword := roundUp_lt hstart h hlt
  rw [align]
  split
  · rename_i hmod
    rw [roundUp_of_mod_ne_zero h hmod] at hword ⊢
    exact word_of_lt hword build
  · rename_i hmod
    rw [roundUp_of_mod_eq_zero h (not_not.mp hmod)]

/-- The loop over the file gives what the table gives: the largest end of a
tensor, behind the start of the data. -/
theorem expectedMinSize_eq {h : Header} (hheader : readHeader file = .ok h)
    (build : Build) :
    expectedMinSize build file = (do
      let maxEnd ← h.tensors.foldlM (addTensor build) 0
      let finish ← h.finish
      add build (h.start finish) maxEnd) := by
  have hbounded := bounded_of_readHeader hheader
  obtain ⟨⟨⟨tensors, alignment⟩, pos⟩, hpreamble, hrest⟩ := bind_eq_ok.mp hheader
  cases hrest
  rw [expectedMinSize, hpreamble]
  change (readTensors file build tensors 0 pos >>= fun r =>
    align build r.2 alignment >>= fun start => add build start r.1) = _
  rw [readTensors_run]
  cases (readTable file tensors pos).1.foldlM (addTensor build) 0 with
  | error failure => rfl
  | ok maxEnd =>
      cases hfinish : (readTable file tensors pos).2 with
      | error failure => rfl
      | ok finish =>
          change (align build finish alignment >>= fun start =>
            add build start maxEnd) = _
          rw [align_eq hbounded.alignment_pos hbounded.alignment_lt
            (hbounded.finish_lt hfinish)]
          rfl

end Headers

section Verdicts

variable {build : Build} {file : File}

theorem check_ne_panics_iff (path : String) :
    check build path (some file) ≠ .panics ↔
      expectedMinSize build file ≠ .error .panic := by
  rw [check]
  split
  · simp [*]
  · simp [*]
  · simp only [*]
    split <;> simp

theorem check_eq_accepts_iff (path : String) :
    check build path (some file) = .accepts ↔
      ∃ want, expectedMinSize build file = .ok want ∧ want ≤ file.bytes.length := by
  rw [check]
  split
  · simp [*]
  · simp [*]
  · simp only [*]
    split
    · simp; omega
    · simp; omega

theorem sound_iff :
    Sound build file ↔
      expectedMinSize build file ≠ .error .panic ∧
        ∀ want, expectedMinSize build file = .ok want → want ≤ file.bytes.length →
          Covered file := by
  simp only [Sound, check_ne_panics_iff, check_eq_accepts_iff]
  constructor
  · intro h
    obtain ⟨hpanic, haccepts⟩ := h ""
    exact ⟨hpanic, fun want hwant hle => haccepts ⟨want, hwant, hle⟩⟩
  · rintro ⟨hpanic, haccepts⟩ path
    exact ⟨hpanic, fun ⟨want, hwant, hle⟩ => haccepts want hwant hle⟩

end Verdicts

section Soundness

variable {file : File} {h : Header} {finish : Nat}

theorem expectedMinSize_of_sizes (hheader : readHeader file = .ok h)
    (hsizes : ∀ t ∈ h.tensors, ∀ n ∈ t.bytes cap, n < 2 ^ 64)
    (hfinish : h.finish = .ok finish) (build : Build) :
    ∃ maxEnd, expectedMinSize build file = add build (h.start finish) maxEnd ∧
      ∀ bound, maxEnd ≤ bound ↔
        ∀ t ∈ h.tensors, ∀ n ∈ t.bytes cap, saturatingAdd t.offset n ≤ bound := by
  obtain ⟨maxEnd, hmaxEnd, hbound⟩ := @foldlM_addTensor build h.tensors hsizes 0
  refine ⟨maxEnd, ?_, ?_⟩
  · rw [expectedMinSize_eq hheader, hmaxEnd, hfinish]
    rfl
  · intro bound
    rw [hbound]
    exact and_iff_right (Nat.zero_le _)

theorem exists_bytes {t : Tensor} {count : Nat → Nat} {n : Nat}
    (h : t.bytes count = some n) (count' : Nat → Nat) :
    ∃ n', t.bytes count' = some n' := by
  obtain ⟨entry, hentry, -⟩ := Option.map_eq_some_iff.mp h
  exact ⟨_, Option.map_eq_some_iff.mpr ⟨entry, hentry, rfl⟩⟩

theorem sizes_of_sound (hheader : readHeader file = .ok h) (hsound : Sound .debug file) :
    ∀ t ∈ h.tensors, ∀ n ∈ t.bytes cap, n < 2 ^ 64 := by
  intro t ht n hn
  by_contra hlarge
  refine (sound_iff.mp hsound).1 ?_
  rw [expectedMinSize_eq hheader, foldlM_addTensor_debug ht hn (by omega)]
  rfl

theorem start_pos (hheader : readHeader file = .ok h) (hfinish : h.finish = .ok finish) :
    0 < h.start finish := by
  have hbounded := bounded_of_readHeader hheader
  exact (hbounded.finish_pos hfinish).trans_le (le_roundUp hbounded.alignment_pos)

theorem start_lt (hheader : readHeader file = .ok h) (hfinish : h.finish = .ok finish) :
    h.start finish < 2 ^ 64 := by
  have hbounded := bounded_of_readHeader hheader
  exact roundUp_lt (hbounded.finish_lt hfinish) hbounded.alignment_pos
    hbounded.alignment_lt

theorem ends_of_sound (hheader : readHeader file = .ok h)
    (hsound : Sound .debug file) (hfinish : h.finish = .ok finish) :
    ∀ t ∈ h.tensors, ∀ n ∈ t.bytes cap, h.start finish + t.offset + n < 2 ^ 64 := by
  intro t ht n hn
  obtain ⟨maxEnd, hsize, hbound⟩ :=
    expectedMinSize_of_sizes hheader (sizes_of_sound hheader hsound) hfinish .debug
  have hpanic := (sound_iff.mp hsound).1
  have hsum : h.start finish + maxEnd < 2 ^ 64 := by
    by_contra hlarge
    exact hpanic (hsize.trans (word_debug_of_le (by omega)))
  -- A sum of offset and size that saturates would not fit behind the start.
  have hlast := (hbound maxEnd).mp (Nat.le_refl _) t ht n hn
  have hstart := start_pos hheader hfinish
  rw [saturatingAdd, cap] at hlast
  omega

theorem covered_of_sound (hheader : readHeader file = .ok h)
    (hsound : Sound .release file) (hfinish : h.finish = .ok finish)
    (hsizes : ∀ t ∈ h.tensors, ∀ n ∈ t.bytes cap, n < 2 ^ 64)
    (hroom : h.start finish ≤ file.bytes.length)
    (hfits : ∀ t ∈ h.tensors, ∀ n ∈ t.bytes cap,
      h.start finish + t.offset + n ≤ file.bytes.length) :
    ∀ t ∈ h.tensors, ∀ n ∈ t.bytes id,
      h.start finish + t.offset + n ≤ file.bytes.length := by
  obtain ⟨maxEnd, hsize, hbound⟩ :=
    expectedMinSize_of_sizes hheader hsizes hfinish .release
  have hlast : maxEnd ≤ file.bytes.length - h.start finish := by
    rw [hbound]
    intro t ht n hn
    have hend := hfits t ht n hn
    exact saturatingAdd_le (by omega)
  have hlength := file.length_le
  have hmax := file.maxPos_lt
  have hword := word_of_lt (n := h.start finish + maxEnd) (by omega) .release
  obtain ⟨h', finish', hheader', hfinish', hcovers⟩ :=
    (sound_iff.mp hsound).2 _ (hsize.trans hword) (by omega)
  obtain rfl := Except.ok.inj (hheader.symm.trans hheader')
  obtain rfl := Except.ok.inj (hfinish.symm.trans hfinish')
  exact hcovers

theorem countable_of_sound (hheader : readHeader file = .ok h)
    (hsound : ∀ build, Sound build file) : Countable file h := by
  have hsizes := sizes_of_sound hheader (hsound .debug)
  refine ⟨hsizes, fun _ => ends_of_sound hheader (hsound .debug), ?_⟩
  intro finish hfinish t ht _ n hn
  by_contra hshort
  rw [not_or] at hshort
  obtain ⟨hlong, hnone⟩ := hshort
  have hfits : ∀ t' ∈ h.tensors, ∀ n' ∈ t'.bytes cap,
      h.start finish + t'.offset + n' ≤ file.bytes.length := by
    intro t' ht' n' hn'
    by_contra hlarge
    exact hnone ⟨t', ht', n', hn', by omega⟩
  obtain ⟨counted, hcounted⟩ := exists_bytes hn cap
  have hroom := hfits t ht counted hcounted
  exact hlong (covered_of_sound hheader (hsound .release) hfinish hsizes (by omega)
    hfits t ht n hn)

theorem sound_of_error {build : Build} {failure : Failure} (hfailure : failure ≠ .panic)
    (h : expectedMinSize build file = .error failure) : Sound build file := by
  rw [sound_iff, h]
  exact ⟨fun hpanic => hfailure (Except.error.inj hpanic), nofun⟩

theorem covered_of_countable (hheader : readHeader file = .ok h)
    (hfinish : h.finish = .ok finish) (hcountable : Countable file h)
    (hfits : ∀ t ∈ h.tensors, ∀ n ∈ t.bytes cap,
      h.start finish + t.offset + n ≤ file.bytes.length) : Covered file := by
  refine ⟨h, finish, hheader, hfinish, ?_⟩
  intro t ht n hn
  rcases Nat.lt_or_ge t.dims.prod (2 ^ 64) with hprod | hprod
  · refine hfits t ht n ?_
    rwa [Tensor.bytes, cap_of_lt hprod]
  · rcases hcountable.capped finish hfinish t ht hprod n hn with
      hroom | ⟨t', ht', n', hn', hlong⟩
    · exact hroom
    · exact absurd (hfits t' ht' n' hn') (by omega)

theorem expectedMinSize_of_countable (hheader : readHeader file = .ok h)
    (hfinish : h.finish = .ok finish) (hcountable : Countable file h)
    (build : Build) :
    ∃ want, expectedMinSize build file = .ok want ∧
      ∀ t ∈ h.tensors, ∀ n ∈ t.bytes cap, h.start finish + t.offset + n ≤ want := by
  obtain ⟨maxEnd, hsize, hbound⟩ :=
    expectedMinSize_of_sizes hheader hcountable.sizes hfinish build
  have hends := hcountable.ends finish hfinish
  have hstart := start_lt hheader hfinish
  have hlast : maxEnd ≤ 2 ^ 64 - 1 - h.start finish := by
    rw [hbound]
    intro t ht n hn
    have hend := hends t ht n hn
    exact saturatingAdd_le (by omega)
  refine ⟨h.start finish + maxEnd, hsize.trans (word_of_lt (by omega) build), ?_⟩
  intro t ht n hn
  have hend := hends t ht n hn
  have hbelow := (hbound maxEnd).mp (Nat.le_refl _) t ht n hn
  rw [saturatingAdd, cap_of_lt (by omega)] at hbelow
  omega

theorem sound_of_countable
    (hcountable : ∀ h, readHeader file = .ok h → Countable file h) (build : Build) :
    Sound build file := by
  cases hheader : readHeader file with
  | error failure =>
      have hpreamble : readPreamble file 0 = .error failure :=
        bind_ok_eq_error.mp hheader
      have hne : failure ≠ .panic := by
        rintro rfl
        exact reads_readPreamble.no_panic 0 hpreamble
      refine sound_of_error hne ?_
      rw [expectedMinSize, hpreamble]
      rfl
  | ok h =>
      have hcounts := hcountable h hheader
      cases hfinish : h.finish with
      | error failure =>
          obtain ⟨maxEnd, hmaxEnd, -⟩ :=
            @foldlM_addTensor build h.tensors hcounts.sizes 0
          have hne : failure ≠ .panic := by
            rintro rfl
            exact (bounded_of_readHeader hheader).finish_no_panic hfinish
          refine sound_of_error hne ?_
          rw [expectedMinSize_eq hheader, hmaxEnd, hfinish]
          rfl
      | ok finish =>
          obtain ⟨want, hwant, hends⟩ :=
            expectedMinSize_of_countable hheader hfinish hcounts build
          rw [sound_iff, hwant]
          constructor
          · intro hpanic
            cases hpanic
          · intro want' heq hle
            obtain rfl := Except.ok.inj heq
            refine covered_of_countable hheader hfinish hcounts ?_
            intro t ht n hn
            exact (hends t ht n hn).trans hle

/-- The check is sound, in a debug build and in a release build, exactly on the
files whose declared sizes can be computed in words. -/
theorem sound_iff_countable (file : File) :
    (∀ build, Sound build file) ↔
      ∀ h, readHeader file = .ok h → Countable file h :=
  ⟨fun hsound _ hheader => countable_of_sound hheader hsound, sound_of_countable⟩

end Soundness

/-- A header with one F32 tensor of 2^62 elements, filled up to 64 bytes. -/
def hugeTensor : File where
  bytes :=
    magic ++ [3, 0, 0, 0] ++ [1, 0, 0, 0, 0, 0, 0, 0] ++ [0, 0, 0, 0, 0, 0, 0, 0] ++
      [1, 0, 0, 0, 0, 0, 0, 0, 119] ++ [1, 0, 0, 0] ++ [0, 0, 0, 0, 0, 0, 0, 64] ++
      [0, 0, 0, 0] ++ [0, 0, 0, 0, 0, 0, 0, 0] ++ [0, 0, 0, 0, 0, 0, 0]
  maxPos := 2 ^ 63 - 1
  length_le := by decide
  maxPos_lt := by decide

theorem readHeader_hugeTensor :
    readHeader hugeTensor = .ok ⟨32, [⟨[2 ^ 62], 0, 0⟩], .ok 57⟩ := by
  rfl

/-- The size of the tensor wraps to nothing in a release build, which accepts the
file, and stops a debug build. -/
theorem not_sound_hugeTensor :
    ¬Sound .release hugeTensor ∧ ¬Sound .debug hugeTensor := by
  constructor
  · intro h
    obtain ⟨header, finish, hheader, hfinish, hcovers⟩ := (h "").2 (by rfl)
    obtain rfl := Except.ok.inj (readHeader_hugeTensor.symm.trans hheader)
    obtain rfl := Except.ok.inj hfinish
    exact absurd (hcovers _ (List.mem_singleton.mpr rfl) (2 ^ 64) rfl) (by decide)
  · intro h
    exact (h "").1 (by rfl)

end AssistantHub.GgufCheck
