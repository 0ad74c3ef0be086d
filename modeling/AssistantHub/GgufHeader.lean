import AssistantHub.FileReaders

namespace AssistantHub.GgufHeader

open AssistantHub.BuildArithmetic
open AssistantHub.FileReaders
open AssistantHub.LittleEndian

/-- (block size, bytes per block) of the ggml tensor types. -/
def typeSize : Nat → Option (Nat × Nat)
  | 0 => some (1, 4)
  | 1 => some (1, 2)
  | 2 => some (32, 18)
  | 3 => some (32, 20)
  | 6 => some (32, 22)
  | 7 => some (32, 24)
  | 8 => some (32, 34)
  | 9 => some (32, 36)
  | 10 => some (256, 84)
  | 11 => some (256, 110)
  | 12 => some (256, 144)
  | 13 => some (256, 176)
  | 14 => some (256, 210)
  | 15 => some (256, 292)
  | 18 => some (256, 98)
  | 20 => some (32, 18)
  | 21 => some (256, 110)
  | 23 => some (256, 136)
  | 24 => some (1, 1)
  | 25 => some (1, 2)
  | 26 => some (1, 4)
  | 27 | 28 => some (1, 8)
  | 30 => some (1, 2)
  | 39 => some (32, 17)
  | _ => none

def stringType : Nat := 8

def arrayType : Nat := 9

def scalarSize : Nat → Option Nat
  | 0 | 1 | 7 => some 1
  | 2 | 3 => some 2
  | 4 | 5 | 6 => some 4
  | 10 | 11 | 12 => some 8
  | _ => none

section Reading

variable (file : File)

def bytes (n : Nat) : Reader Bytes := file.readExact "header truncated" n

def u32 : Reader Nat := leNat <$> bytes file 4

def u64 : Reader Nat := leNat <$> bytes file 8

def skip (n : Nat) : Reader Unit :=
  if n < 2 ^ 63 then file.seekRelative n else fail "bad length"

def string : Reader Bytes := do
  let len ← u64 file
  if len > 2 ^ 20 then fail s!"string length {len} is not plausible"
  else bytes file len

/-- `skip_value`, with `element` in place of the call for an array's elements. -/
def skipValueWith (element : Nat → Reader Unit) (t : Nat) : Reader Unit :=
  match scalarSize t with
  | some n => skip file n
  | none =>
      if t = stringType then do
        let len ← u64 file
        skip file len
      else if t = arrayType then do
        let elem ← u32 file
        let count ← u64 file
        match scalarSize elem with
        | some n => if n * count < 2 ^ 64 then skip file (n * count) else fail "bad array"
        | none => times count (element elem)
      else fail s!"unknown GGUF value type {t}"

/-- Every array in an array takes more of the file, so `depth` is never short
when it begins above the length of the file. -/
def skipValue : Nat → Nat → Reader Unit
  | 0 => fun _ => fail "header truncated"
  | depth + 1 => skipValueWith file (skipValue depth)

def magic : Bytes := [71, 71, 85, 70]

def alignmentKey : Bytes := "general.alignment".toUTF8.data.toList

/-- One metadata entry. The result is the alignment after it. -/
def readEntry (alignment : Nat) : Reader Nat := do
  let key ← string file
  let t ← u32 file
  match scalarSize t, decide (key = alignmentKey) with
  | some n, true => do
      let buf ← file.readExact "failed to fill whole buffer" n
      return max (leNat buf) 1
  | _, _ => do
      skipValue file (file.bytes.length + 1) t
      return alignment

def readMetadata : Nat → Nat → Reader Nat
  | 0, alignment => return alignment
  | kvs + 1, alignment => do
      let alignment ← readEntry file alignment
      readMetadata kvs alignment

/-- The tensor count and the alignment, from the header after the magic. -/
def readCounts : Reader (Nat × Nat) := do
  let _version ← u32 file
  let tensors ← u64 file
  let kvs ← u64 file
  let alignment ← readMetadata file kvs 32
  return (tensors, alignment)

def readPreamble : Reader (Nat × Nat) := do
  let start ← bytes file 4
  if start ≠ magic then fail "not a GGUF file (bad magic)"
  else readCounts file

def readElems : Nat → Nat → Reader Nat
  | 0, elems => return elems
  | dims + 1, elems => do
      let d ← u64 file
      readElems dims (saturatingMul elems d)

/-- `max_end` after a tensor. -/
def grow (build : Build) (maxEnd elems t offset : Nat) : Except Failure Nat :=
  match typeSize t with
  | none => .ok maxEnd
  | some (block, size) => do
      let bytes ← mul build (elems / block) size
      return max maxEnd (saturatingAdd offset bytes)

def readTensors (build : Build) : Nat → Nat → Reader Nat
  | 0, maxEnd => return maxEnd
  | tensors + 1, maxEnd => do
      let _name ← string file
      let dims ← u32 file
      let elems ← readElems file dims 1
      let t ← u32 file
      let offset ← u64 file
      let maxEnd ← (grow build maxEnd elems t offset : Except Failure Nat)
      readTensors build tensors maxEnd

end Reading

def align (build : Build) (start alignment : Nat) : Except Failure Nat :=
  if start % alignment ≠ 0 then add build start (alignment - start % alignment)
  else .ok start

/-- Minimum file size that the header declares: data start plus the end of the
last tensor. -/
def expectedMinSize (build : Build) (file : File) : Except Failure Nat := do
  let ((tensors, alignment), pos) ← readPreamble file 0
  let (maxEnd, start) ← readTensors file build tensors 0 pos
  let start ← align build start alignment
  add build start maxEnd

/-- What a check prints and returns, or that it panics. -/
inductive Verdict
  | panics
  | rejects (problem : String)
  | accepts
  deriving DecidableEq, Repr

/-- Checks one file, if there is one at `path`. -/
def check (build : Build) (path : String) : Option File → Verdict
  | none => .rejects s!"MISSING {path}"
  | some file =>
      match expectedMinSize build file with
      | .error .panic => .panics
      | .error (.error err) => .rejects s!"CORRUPT {path}: {err}"
      | .ok want =>
          let got := file.bytes.length
          if got < want then
            .rejects (s!"TRUNCATED {path}: header declares at least {want} bytes, " ++
              s!"file is {got} bytes ({want - got} bytes short)")
          else .accepts

section Moves

variable {file : File}

theorem reads_bytes (n : Nat) : Reads file (bytes file n) fun b => b.length ≤ n :=
  Reads.readExact _ n

theorem leNat_lt_of_length_le {b : Bytes} {n : Nat} (h : b.length ≤ n) :
    leNat b < 2 ^ (8 * n) :=
  (leNat_lt b).trans_le (Nat.pow_le_pow_right (by omega) (by omega))

theorem reads_u32 : Reads file (u32 file) fun n => n < 2 ^ 32 :=
  (reads_bytes 4).map fun _ => leNat_lt_of_length_le

theorem reads_u64 : Reads file (u64 file) fun n => n < 2 ^ 64 :=
  (reads_bytes 8).map fun _ => leNat_lt_of_length_le

theorem reads_skip (n : Nat) : Reads file (skip file n) fun _ => True := by
  rw [skip]
  split
  · exact Reads.seekRelative n
  · exact Reads.fail _

theorem reads_string : Reads file (string file) fun _ => True := by
  refine reads_u64.bind fun len _ => ?_
  split
  · exact Reads.fail _
  · exact (reads_bytes len).weaken fun _ _ => trivial

theorem reads_skipValueWith {element : Nat → Reader Unit}
    (h : ∀ t, Reads file (element t) fun _ => True) (t : Nat) :
    Reads file (skipValueWith file element t) fun _ => True := by
  rw [skipValueWith]
  split
  · exact reads_skip _
  · split
    · exact reads_u64.bind fun len _ => reads_skip len
    · split
      · refine reads_u32.bind fun elem _ => reads_u64.bind fun count _ => ?_
        split
        · split
          · exact reads_skip _
          · exact Reads.fail _
        · exact (h elem).times count
      · exact Reads.fail _

theorem reads_skipValue (depth t : Nat) :
    Reads file (skipValue file depth t) fun _ => True := by
  induction depth generalizing t with
  | zero => exact Reads.fail _
  | succ depth ih => exact reads_skipValueWith ih t

theorem leNat_bytes_eq_ok {n pos value pos' : Nat} (hn : 0 < n)
    (h : (leNat <$> bytes file n) pos = .ok (value, pos')) :
    pos + n ≤ file.bytes.length ∧ pos' = pos + n := by
  obtain ⟨b, hb, -⟩ := reader_map_eq_ok.mp h
  obtain ⟨hroom, -, rfl⟩ := readExact_eq_ok.mp hb
  exact ⟨hroom.resolve_left (by omega), rfl⟩

theorem skipValueWith_congr {element element' : Nat → Reader Unit} {pos : Nat}
    (hreads : ∀ t, Reads file (element t) fun _ => True)
    (h : pos + 12 ≤ file.bytes.length → ∀ t next, pos + 12 ≤ next →
      element' t next = element t next) (t : Nat) :
    skipValueWith file element' t pos = skipValueWith file element t pos := by
  rw [skipValueWith, skipValueWith]
  cases scalarSize t with
  | some n => rfl
  | none =>
      simp only
      split
      · rfl
      · split
        · refine bind_congr_of_ok fun elem next helem => ?_
          refine bind_congr_of_ok fun count last hcount => ?_
          obtain ⟨-, rfl⟩ := leNat_bytes_eq_ok (by omega) helem
          obtain ⟨hroom, rfl⟩ := leNat_bytes_eq_ok (by omega) hcount
          cases scalarSize elem with
          | some n => rfl
          | none =>
              exact times_congr (hreads elem) (h (by omega) elem) count (by omega)
        · rfl

/-- More depth than bytes changes nothing. -/
theorem skipValue_succ {depth : Nat} (hdepth : 0 < depth) {pos : Nat}
    (h : file.bytes.length < pos + depth) (t : Nat) :
    skipValue file (depth + 1) t pos = skipValue file depth t pos := by
  induction depth generalizing pos t with
  | zero => omega
  | succ depth ih =>
      refine skipValueWith_congr (reads_skipValue depth) ?_ t
      intro hroom elem next hnext
      exact ih (by omega) (by omega) elem

end Moves

end AssistantHub.GgufHeader
