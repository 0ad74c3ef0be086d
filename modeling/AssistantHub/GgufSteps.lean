import AssistantHub.CountedReaders
import AssistantHub.GgufCheck
import AssistantHub.GgufMetadata

namespace AssistantHub.GgufSteps

open AssistantHub.BuildArithmetic
open AssistantHub.CountedReaders
open AssistantHub.Fallible
open AssistantHub.FileReaders
open AssistantHub.GgufCheck
open AssistantHub.GgufHeader
open AssistantHub.GgufMetadata
open AssistantHub.LittleEndian
open AssistantHub.LossyText

section Rounds

variable (file : File)

/-- One round over the pairs in `metadata_string`. -/
def findRound (wanted : Bytes) : Reader (Option String) := do
  let key ← string file
  let t ← u32 file
  if key = wanted ∧ t = stringType then do
    let value ← string file
    return some (fromUtf8Lossy value)
  else do
    skipValue file (file.bytes.length + 1) t
    return none

/-- One round over the tensors. -/
def tensorRound (build : Build) (maxEnd : Nat) : Reader Nat := do
  let _name ← string file
  let dims ← u32 file
  let elems ← readElems file dims 1
  let t ← u32 file
  let offset ← u64 file
  (grow build maxEnd elems t offset : Except Failure Nat)

/-- What is left of `expected_min_size` behind the tensors. -/
def sizeAfter (build : Build) (alignment maxEnd : Nat) : Reader Nat := do
  let start ← get
  let start ← (align build start alignment : Except Failure Nat)
  (add build start maxEnd : Except Failure Nat)

/-- `expected_min_size` as one reader. -/
def readSize (build : Build) : Reader Nat := do
  let (tensors, alignment) ← readPreamble file
  let maxEnd ← readTensors file build tensors 0
  sizeAfter build alignment maxEnd

end Rounds

section Counting

variable (file : File)

/-- `skip_value`, with a step for each round over an array and one for each call
for an element. -/
def skipValueCounted : Nat → Nat → Counted Unit
  | 0, _ => stop .tooDeep
  | depth + 1, t =>
      match scalarSize t with
      | some n => uncounted (skip file n)
      | none =>
          if t = stringType then do
            let len ← uncounted (u64 file)
            uncounted (skip file len)
          else if t = arrayType then do
            let elem ← uncounted (u32 file)
            let count ← uncounted (u64 file)
            match scalarSize elem with
            | some n =>
                if n * count < 2 ^ 64 then uncounted (skip file (n * count))
                else uncounted (fail "bad array")
            | none => timesCounted count (counting (skipValueCounted depth elem))
          else uncounted (fail s!"unknown GGUF value type {t}")

def readEntryCounted (alignment : Nat) : Counted Nat := do
  let key ← uncounted (string file)
  let t ← uncounted (u32 file)
  match scalarSize t, decide (key = alignmentKey) with
  | some n, true => do
      let buf ← uncounted (file.readExact "failed to fill whole buffer" n)
      return max (leNat buf) 1
  | _, _ => do
      skipValueCounted file (file.bytes.length + 1) t
      return alignment

def readMetadataCounted : Nat → Nat → Counted Nat
  | 0, alignment => return alignment
  | kvs + 1, alignment => do
      let alignment ← counting (readEntryCounted file alignment)
      readMetadataCounted kvs alignment

def readElemsCounted : Nat → Nat → Counted Nat
  | 0, elems => return elems
  | dims + 1, elems => do
      let d ← counting (uncounted (u64 file))
      readElemsCounted dims (saturatingMul elems d)

def tensorRoundCounted (build : Build) (maxEnd : Nat) : Counted Nat := do
  let _name ← uncounted (string file)
  let dims ← uncounted (u32 file)
  let elems ← readElemsCounted file dims 1
  let t ← uncounted (u32 file)
  let offset ← uncounted (u64 file)
  uncounted (grow build maxEnd elems t offset : Except Failure Nat)

def readTensorsCounted (build : Build) : Nat → Nat → Counted Nat
  | 0, maxEnd => return maxEnd
  | tensors + 1, maxEnd => do
      let maxEnd ← counting (tensorRoundCounted file build maxEnd)
      readTensorsCounted build tensors maxEnd

def readPreambleCounted : Counted (Nat × Nat) := do
  let start ← uncounted (bytes file 4)
  if start ≠ magic then uncounted (fail "not a GGUF file (bad magic)")
  else do
    let _version ← uncounted (u32 file)
    let tensors ← uncounted (u64 file)
    let kvs ← uncounted (u64 file)
    let alignment ← readMetadataCounted file kvs 32
    return (tensors, alignment)

def readSizeCounted (build : Build) : Counted Nat := do
  let (tensors, alignment) ← readPreambleCounted file
  let maxEnd ← readTensorsCounted file build tensors 0
  uncounted (sizeAfter build alignment maxEnd)

/-- The result of `expected_min_size`, and the number of its steps. -/
def expectedMinSizeCounted (build : Build) : Except Stop Nat × Nat :=
  ((readSizeCounted file build 0 0).1.map Prod.fst, (readSizeCounted file build 0 0).2)

def findRoundCounted (wanted : Bytes) : Counted (Option String) := do
  let key ← uncounted (string file)
  let t ← uncounted (u32 file)
  if key = wanted ∧ t = stringType then do
    let value ← uncounted (string file)
    return some (fromUtf8Lossy value)
  else do
    skipValueCounted file (file.bytes.length + 1) t
    return none

def findStringCounted (wanted : Bytes) : Nat → Counted (Option String)
  | 0 => return none
  | kvs + 1 => do
      let found ← counting (findRoundCounted file wanted)
      match found with
      | some value => return some value
      | none => findStringCounted wanted kvs

def readWantedCounted (wanted : Bytes) : Counted (Option String) := do
  let start ← uncounted (bytes file 4)
  if start ≠ magic then uncounted (fail "not a GGUF file (bad magic)")
  else do
    let _version ← uncounted (u32 file)
    let _tensors ← uncounted (u64 file)
    let kvs ← uncounted (u64 file)
    findStringCounted file wanted kvs

/-- The result of `metadata_string`, and the number of its steps. -/
def metadataStringCounted (wanted : String) : Except Stop (Option String) × Nat :=
  ((readWantedCounted file (utf8 wanted.toList) 0 0).1.map Prod.fst,
    (readWantedCounted file (utf8 wanted.toList) 0 0).2)

end Counting

section Consumption

variable {file : File}

theorem consumes_bytes (n : Nat) : Consumes file (bytes file n) n :=
  Consumes.readExact _ n

theorem consumes_u32 : Consumes file (u32 file) 4 :=
  (consumes_bytes 4).map

theorem consumes_u64 : Consumes file (u64 file) 8 :=
  (consumes_bytes 8).map

theorem consumes_skip (n : Nat) : Consumes file (skip file n) 0 :=
  Consumes.of_reads (reads_skip n)

theorem consumes_string : Consumes file (string file) 8 := by
  refine consumes_u64.bind (m := 0) fun len => ?_
  split
  · exact Consumes.fail _
  · exact (consumes_bytes len).weaken (Nat.zero_le _)

theorem consumes_skipValue_of_none {t : Nat} (ht : scalarSize t = none)
    (depth : Nat) : Consumes file (skipValue file depth t) 8 := by
  rcases depth with _ | depth
  · exact Consumes.fail _
  · show Consumes file (skipValueWith file (skipValue file depth) t) 8
    rw [skipValueWith, ht]
    by_cases hstring : t = stringType
    · rw [if_pos hstring]
      exact consumes_u64.bind consumes_skip
    · rw [if_neg hstring]
      by_cases harray : t = arrayType
      · rw [if_pos harray]
        refine (consumes_u32.bind (m := 8) fun elem =>
          consumes_u64.bind (m := 0) fun count => ?_).weaken (by omega)
        rcases scalarSize elem with _ | n
        · exact Consumes.of_reads ((reads_skipValue depth elem).times count)
        · show Consumes file (if n * count < 2 ^ 64 then _ else _) 0
          split
          · exact consumes_skip _
          · exact Consumes.fail _
      · rw [if_neg harray]
        exact Consumes.fail _

end Consumption

section Payments

variable {file : File} {pos : Nat}

/-- By induction on the depth: the header of an array pays for the round that
fails, so that the depth is never short. -/
theorem pays_skipValue_of_none {depth t : Nat} (ht : scalarSize t = none)
    (hdepth : 0 < depth) (hpos : file.bytes.length < pos + depth) :
    Pays file (skipValueCounted file depth t) (skipValue file depth t) 8 0 pos := by
  induction depth generalizing t pos with
  | zero => omega
  | succ depth ih =>
      rw [skipValueCounted, skipValue, skipValueWith, ht]
      by_cases hstring : t = stringType
      · rw [if_pos hstring, if_pos hstring]
        exact (Pays.uncounted consumes_u64).bind (Nat.zero_le _) fun len next _ =>
          Pays.uncounted (consumes_skip len)
      · rw [if_neg hstring, if_neg hstring]
        by_cases harray : t = arrayType
        · rw [if_pos harray, if_pos harray]
          refine Pays.weaken (?_ : Pays file _ _ (4 + (8 + 0)) 0 pos) (by omega) (Nat.le_refl _)
          refine (Pays.uncounted consumes_u32).bind (Nat.zero_le _) fun elem next helem => ?_
          refine Pays.bind (Pays.uncounted consumes_u64) (?_ : 8 ≤ _)
            fun count last hcount => ?_
          · omega
          obtain ⟨-, rfl⟩ := leNat_bytes_eq_ok (by omega) helem
          obtain ⟨hroom, rfl⟩ := leNat_bytes_eq_ok (by omega) hcount
          rcases helem : scalarSize elem with _ | n
          · have hround : ∀ start, pos + 12 ≤ start →
                Pays file (counting (skipValueCounted file depth elem))
                  (skipValue file depth elem) 4 4 start := fun start hstart =>
              Pays.counting (ih helem (by omega) (by omega))
            exact Pays.times (reads_skipValue depth elem) hround count (by omega)
          · refine Pays.weaken ?_ (Nat.le_refl _) (Nat.zero_le _)
            show Pays file (if n * count < 2 ^ 64 then _ else _)
              (if n * count < 2 ^ 64 then _ else _) 0 0 _
            split
            · exact Pays.uncounted (consumes_skip _)
            · exact Pays.uncounted (Consumes.fail _)
        · rw [if_neg harray, if_neg harray]
          exact Pays.uncounted (Consumes.fail _)

theorem pays_skipValue (t : Nat) :
    Pays file (skipValueCounted file (file.bytes.length + 1) t)
      (skipValue file (file.bytes.length + 1) t) 0 0 pos := by
  rcases ht : scalarSize t with _ | n
  · exact (pays_skipValue_of_none ht (Nat.succ_pos _) (by omega)).weaken
      (Nat.zero_le _) (Nat.le_refl _)
  · rw [skipValueCounted, skipValue, skipValueWith, ht]
    exact Pays.uncounted (consumes_skip n)

theorem pays_map_skipValue {α : Type} (t : Nat) (a : α) :
    Pays file (do skipValueCounted file (file.bytes.length + 1) t; return a)
      (do skipValue file (file.bytes.length + 1) t; return a) 0 0 pos :=
  (pays_skipValue t).bind (Nat.le_refl _) fun _ _ _ => Pays.pure a

/-- The key and the type of a pair. -/
theorem pays_pair {α : Type} {f : Bytes → Nat → Counted α}
    {g : Bytes → Nat → Reader α}
    (h : ∀ key t next, Pays file (f key t) (g key t) 0 0 next) :
    Pays file
      (do let key ← uncounted (string file); let t ← uncounted (u32 file); f key t)
      (do let key ← string file; let t ← u32 file; g key t) 12 0 pos :=
  (Pays.uncounted consumes_string).bind (Nat.zero_le _) fun key _ _ =>
    (Pays.uncounted consumes_u32).bind (Nat.zero_le _) fun t next _ => h key t next

theorem pays_readEntry (alignment : Nat) :
    Pays file (readEntryCounted file alignment) (readEntry file alignment) 12 0 pos := by
  refine pays_pair fun key t next => ?_
  rcases scalarSize t with _ | n
  · exact pays_map_skipValue t alignment
  · rcases decide (key = alignmentKey) with _ | _
    · exact pays_map_skipValue t alignment
    · exact (Pays.uncounted ((Consumes.readExact _ n).weaken (Nat.zero_le _))).bind
        (Nat.le_refl _) fun buf _ _ => Pays.pure _

theorem pays_findRound (wanted : Bytes) :
    Pays file (findRoundCounted file wanted) (findRound file wanted) 12 0 pos := by
  refine pays_pair fun key t next => ?_
  by_cases hwanted : key = wanted ∧ t = stringType
  · rw [if_pos hwanted, if_pos hwanted]
    exact (Pays.uncounted (consumes_string.weaken (Nat.zero_le _))).bind
      (Nat.le_refl _) fun value _ _ => Pays.pure _
  · rw [if_neg hwanted, if_neg hwanted]
    exact pays_map_skipValue t none

theorem pays_readMetadata (kvs alignment : Nat) :
    Pays file (readMetadataCounted file kvs alignment)
      (readMetadata file kvs alignment) 0 4 pos := by
  induction kvs generalizing alignment pos with
  | zero => exact (Pays.pure alignment).weaken (Nat.le_refl _) (Nat.zero_le _)
  | succ kvs ih =>
      have hround : Pays file (counting (readEntryCounted file alignment))
          (readEntry file alignment) 0 4 pos :=
        Pays.counting ((pays_readEntry alignment).weaken (by omega) (Nat.le_refl _))
      exact hround.bind (Nat.le_refl _) fun alignment _ _ => ih alignment

theorem findString_succ (wanted : Bytes) (kvs : Nat) :
    findString file wanted (kvs + 1) = (do
      let found ← findRound file wanted
      match found with
      | some value => return some value
      | none => findString file wanted kvs) := by
  rw [findString, findRound]
  simp only [bind_assoc]
  congr 1
  funext key
  congr 1
  funext t
  split
  · simp only [bind_assoc, pure_bind]
  · simp only [bind_assoc, pure_bind]

theorem pays_findString (wanted : Bytes) (kvs : Nat) :
    Pays file (findStringCounted file wanted kvs) (findString file wanted kvs) 0 4
      pos := by
  induction kvs generalizing pos with
  | zero => exact (Pays.pure none).weaken (Nat.le_refl _) (Nat.zero_le _)
  | succ kvs ih =>
      have hround : Pays file (counting (findRoundCounted file wanted))
          (findRound file wanted) 0 4 pos :=
        Pays.counting ((pays_findRound wanted).weaken (by omega) (Nat.le_refl _))
      rw [findStringCounted, findString_succ]
      show Pays file _ _ (0 + 0) 4 pos
      refine hround.bind (Nat.le_refl _) fun found next _ => ?_
      rcases found with _ | value
      · exact ih
      · exact (Pays.pure (some value)).weaken (Nat.le_refl _) (Nat.zero_le _)

theorem pays_readElems (dims elems : Nat) :
    Pays file (readElemsCounted file dims elems) (readElems file dims elems) 0 4
      pos := by
  induction dims generalizing elems pos with
  | zero => exact (Pays.pure elems).weaken (Nat.le_refl _) (Nat.zero_le _)
  | succ dims ih =>
      have hround : Pays file (counting (uncounted (u64 file))) (u64 file) 0 4 pos :=
        Pays.counting (Pays.uncounted (consumes_u64.weaken (by omega)))
      exact hround.bind (Nat.le_refl _) fun d _ _ => ih (saturatingMul elems d)

theorem consumes_lift {α : Type} (result : Except Failure α) :
    Consumes file (result : Reader α) 0 := by
  intro pos a pos' h
  obtain ⟨r, -, hr⟩ := bind_eq_ok.mp h
  obtain ⟨-, rfl⟩ := Prod.mk.inj (Except.ok.inj hr)
  exact Nat.le_refl _

theorem pays_tensorRound (build : Build) (maxEnd : Nat) :
    Pays file (tensorRoundCounted file build maxEnd) (tensorRound file build maxEnd)
      24 0 pos := by
  refine Pays.weaken (?_ : Pays file _ _ (8 + (4 + (0 + (4 + (8 + 0))))) 0 pos)
    (Nat.le_refl _) (Nat.le_refl _)
  refine (Pays.uncounted consumes_string).bind (Nat.zero_le _) fun _ _ _ => ?_
  refine (Pays.uncounted consumes_u32).bind (Nat.le_refl 4) fun dims _ _ => ?_
  refine (pays_readElems dims 1).bind (Nat.zero_le _) fun elems _ _ => ?_
  refine (Pays.uncounted consumes_u32).bind (Nat.zero_le _) fun t _ _ => ?_
  refine (Pays.uncounted consumes_u64).bind (Nat.zero_le _) fun offset _ _ => ?_
  exact Pays.uncounted (consumes_lift _)

theorem readTensors_eq_round (build : Build) (tensors maxEnd : Nat) :
    readTensors file build (tensors + 1) maxEnd = (do
      let maxEnd ← tensorRound file build maxEnd
      readTensors file build tensors maxEnd) := by
  rw [readTensors, tensorRound]
  simp only [bind_assoc]

theorem pays_readTensors (build : Build) (tensors maxEnd : Nat) :
    Pays file (readTensorsCounted file build tensors maxEnd)
      (readTensors file build tensors maxEnd) 0 4 pos := by
  induction tensors generalizing maxEnd pos with
  | zero => exact (Pays.pure maxEnd).weaken (Nat.le_refl _) (Nat.zero_le _)
  | succ tensors ih =>
      have hround : Pays file (counting (tensorRoundCounted file build maxEnd))
          (tensorRound file build maxEnd) 0 4 pos :=
        Pays.counting ((pays_tensorRound build maxEnd).weaken (by omega)
          (Nat.le_refl _))
      rw [readTensorsCounted, readTensors_eq_round]
      exact hround.bind (Nat.le_refl _) fun maxEnd _ _ => ih maxEnd

/-- The magic, the version and the two counts. -/
theorem pays_counts {α : Type} {f : Nat → Nat → Counted α} {g : Nat → Nat → Reader α}
    (h : ∀ tensors kvs next, Pays file (f tensors kvs) (g tensors kvs) 0 4 next) :
    Pays file
      (do
        let start ← uncounted (bytes file 4)
        if start ≠ magic then uncounted (fail "not a GGUF file (bad magic)")
        else do
          let _version ← uncounted (u32 file)
          let tensors ← uncounted (u64 file)
          let kvs ← uncounted (u64 file)
          f tensors kvs)
      (do
        let start ← bytes file 4
        if start ≠ magic then fail "not a GGUF file (bad magic)"
        else do
          let _version ← u32 file
          let tensors ← u64 file
          let kvs ← u64 file
          g tensors kvs) 24 0 pos := by
  refine Pays.weaken (?_ : Pays file _ _ (4 + (4 + (8 + (8 + 0)))) 0 pos)
    (Nat.le_refl _) (Nat.le_refl _)
  refine (Pays.uncounted (consumes_bytes 4)).bind (Nat.zero_le _) fun start _ _ => ?_
  by_cases hmagic : start ≠ magic
  · rw [if_pos hmagic, if_pos hmagic]
    exact Pays.uncounted (Consumes.fail _)
  · rw [if_neg hmagic, if_neg hmagic]
    refine (Pays.uncounted consumes_u32).bind (Nat.zero_le _) fun _ _ _ => ?_
    refine (Pays.uncounted consumes_u64).bind (Nat.zero_le _) fun tensors _ _ => ?_
    exact (Pays.uncounted consumes_u64).bind (by omega) fun kvs next _ =>
      h tensors kvs next

theorem pays_readPreamble :
    Pays file (readPreambleCounted file) (readPreamble file) 24 0 pos :=
  pays_counts fun tensors kvs _ =>
    (pays_readMetadata kvs 32).bind (Nat.zero_le _) fun alignment _ _ =>
      Pays.pure (tensors, alignment)

theorem pays_readWanted (wanted : Bytes) :
    Pays file (readWantedCounted file wanted) (readWanted file wanted) 24 0 pos :=
  pays_counts fun _ kvs _ => pays_findString wanted kvs

theorem sizeAfter_run (build : Build) (alignment maxEnd start : Nat) :
    (sizeAfter build alignment maxEnd start).map Prod.fst =
      align build start alignment >>= fun start => add build start maxEnd := by
  show (((liftM (align build start alignment) : Reader Nat) >>= fun start =>
    liftM (add build start maxEnd)) start).map Prod.fst = _
  rw [bind_run]
  rcases align build start alignment with _ | aligned
  · rfl
  · show ((liftM (add build aligned maxEnd) : Reader Nat) start).map Prod.fst =
      add build aligned maxEnd
    rcases add build aligned maxEnd with _ | _
    · rfl
    · rfl

theorem expectedMinSize_eq_readSize (build : Build) :
    expectedMinSize build file = (readSize file build 0).map Prod.fst := by
  rw [expectedMinSize, readSize]
  rcases hpreamble : readPreamble file 0 with failure | ⟨⟨tensors, alignment⟩, pos⟩
  · rw [bind_reader_error hpreamble]
    rfl
  · rw [bind_reader_ok hpreamble]
    show (readTensors file build tensors 0 pos >>= fun r =>
      align build r.2 alignment >>= fun start => add build start r.1) =
      ((readTensors file build tensors 0 >>= sizeAfter build alignment) pos).map Prod.fst
    rcases htensors : readTensors file build tensors 0 pos with failure | ⟨maxEnd, start⟩
    · rw [bind_reader_error htensors]
      rfl
    · rw [bind_reader_ok htensors, sizeAfter_run]
      rfl

theorem metadataString_eq_readWanted (wanted : String) :
    metadataString file wanted =
      (readWanted file (utf8 wanted.toList) 0).map Prod.fst := by
  rw [metadataString]
  rcases readWanted file (utf8 wanted.toList) 0 with _ | _
  · rfl
  · rfl

theorem consumes_sizeAfter (build : Build) (alignment maxEnd : Nat) :
    Consumes file (sizeAfter build alignment maxEnd) 0 := by
  intro pos a pos' h
  exact ((consumes_lift (align build pos alignment)).bind fun start =>
    consumes_lift (add build start maxEnd)) h

theorem pays_readSize (build : Build) :
    Pays file (readSizeCounted file build) (readSize file build) 24 0 pos := by
  show Pays file _ _ (24 + (0 + 0)) 0 pos
  refine pays_readPreamble.bind (?_ : 4 ≤ 0 + 24) fun counts _ _ => ?_
  · omega
  · exact (pays_readTensors build counts.1 0).bind (Nat.zero_le _) fun maxEnd _ _ =>
      Pays.uncounted (consumes_sizeAfter build counts.2 maxEnd)

end Payments

/-- Both readers end on every file, without reaching the limit on the depth. Each
round of a loop and each call for an element fails or takes four bytes, and
together they are at most a quarter as many as the bytes. -/
theorem readers_end (build : Build) (file : File) (wanted : String) :
    (expectedMinSizeCounted file build).1 =
      (expectedMinSize build file).mapError .failed ∧
    4 * (expectedMinSizeCounted file build).2 ≤ file.bytes.length ∧
    (metadataStringCounted file wanted).1 =
      (metadataString file wanted).mapError .failed ∧
    4 * (metadataStringCounted file wanted).2 ≤ file.bytes.length ∧
    (∀ alignment, Consumes file (readEntry file alignment) 4) ∧
    Consumes file (findRound file (utf8 wanted.toList)) 4 ∧
    Consumes file (u64 file) 4 ∧
    (∀ maxEnd, Consumes file (tensorRound file build maxEnd) 4) ∧
    ∀ elem depth, scalarSize elem = none →
      Consumes file (skipValue file depth elem) 4 := by
  obtain ⟨hsize, hsteps⟩ := (@pays_readSize file 0 build).run
  obtain ⟨hfound, hrounds⟩ := (@pays_readWanted file 0 (utf8 wanted.toList)).run
  refine ⟨?_, hsteps, ?_, hrounds, ?_, ?_, ?_, ?_, ?_⟩
  · rw [expectedMinSize_eq_readSize]
    exact hsize
  · rw [metadataString_eq_readWanted]
    exact hfound
  · intro alignment
    exact (Pays.consumes fun _ => pays_readEntry alignment).weaken (by omega)
  · exact (Pays.consumes fun _ => pays_findRound _).weaken (by omega)
  · exact consumes_u64.weaken (by omega)
  · intro maxEnd
    exact (Pays.consumes fun _ => pays_tensorRound build maxEnd).weaken (by omega)
  · intro elem depth helem
    exact (consumes_skipValue_of_none helem depth).weaken (by omega)

/-- One round for the tensor and one for its dimension. -/
theorem readers_end_hugeTensor :
    (expectedMinSizeCounted hugeTensor .release).2 = 2 ∧
      4 * (expectedMinSizeCounted hugeTensor .release).2 ≤ 64 ∧
      Consumes hugeTensor (skipValue hugeTensor 1 stringType) 4 := by
  obtain ⟨-, hsteps, -, -, -, -, -, -, hcalls⟩ := readers_end .release hugeTensor ""
  exact ⟨rfl, hsteps, hcalls stringType 1 rfl⟩

end AssistantHub.GgufSteps
