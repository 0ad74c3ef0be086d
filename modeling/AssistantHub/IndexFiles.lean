import AssistantHub.CrashSteps
import AssistantHub.F32Bytes
import AssistantHub.HeaderEncoding
import Mathlib.Logic.Function.Basic

namespace AssistantHub.IndexFiles

open AssistantHub.CrashSteps
open AssistantHub.F32Bytes
open AssistantHub.HeaderEncoding
open AssistantHub.IndexStore
open AssistantHub.KeyedTable

abbrev Dir := String → Option (List UInt8)

inductive FileOp where
  | createDirAll
  | write (name : String) (contents : List UInt8)
  | rename (source target : String)

def FileOp.apply : FileOp → Dir → Dir
  | .createDirAll, dir => dir
  | .write name contents, dir => Function.update dir name (some contents)
  | .rename source target, dir =>
      match dir source with
      | none => dir
      | some contents =>
          Function.update (Function.update dir source none) target
            (some contents)

/-- What an operation that fails leaves behind: a write may have created the
file and written a part of it. -/
def FileOp.fail (torn : Option (List UInt8)) : FileOp → Dir → Dir
  | .write name _, dir =>
      match torn with
      | none => dir
      | some contents => Function.update dir name (some contents)
  | _, dir => dir

def Index.header (ix : Index F32) (fingerprint : String) : Header :=
  { fingerprint := fingerprint, dims := ix.dims, entries := ix.entries }

def saveOps (json : HeaderJson) (ix : Index F32) (fingerprint : String) :
    List FileOp :=
  [.createDirAll,
    .write "entries.json.tmp" (json.toVec (Index.header ix fingerprint)),
    .write "vectors.f32.tmp" (toBytes ix.vectors),
    -- Vectors first, so that a crash between the renames leaves a length
    -- mismatch, says the source.
    .rename "vectors.f32.tmp" "vectors.f32",
    .rename "entries.json.tmp" "entries.json"]

structure SaveFault where
  step : Fin 5
  torn : Option (List UInt8)
  error : Error

def Index.save (json : HeaderJson) (ix : Index F32) (fingerprint : String)
    (fault : Option SaveFault) (dir : Dir) : Except Error Unit × Dir :=
  let ops := saveOps json ix fingerprint
  match fault with
  | none => (.ok (), run FileOp.apply ops dir)
  | some f =>
      (.error f.error,
        (ops[f.step].fail f.torn) (cut FileOp.apply ops f.step dir))

/-- The saved index, or none if there is none or it does not fit. -/
def Index.load (json : HeaderJson) (dir : Dir) (fingerprint : String)
    (dims : Nat) : Option (Index F32) :=
  (dir "entries.json").bind fun bytes =>
    (json.fromSlice bytes).bind fun header =>
      if header.fingerprint ≠ fingerprint ∨ header.dims ≠ dims then none
      else
        (dir "vectors.f32").bind fun raw =>
          if raw.length ≠ header.entries.length * dims * 4 then none
          else
            some
              { dims := dims
                entries := header.entries
                vectors := fromBytes raw
                byId := positions header.entries }

def indexFiles (dir : Dir) : Option (List UInt8) × Option (List UInt8) :=
  (dir "entries.json", dir "vectors.f32")

/-- The files of a finished save of `ix`. -/
def savedFiles (json : HeaderJson) (ix : Index F32) (fingerprint : String) :
    Option (List UInt8) × Option (List UInt8) :=
  (some (json.toVec (Index.header ix fingerprint)), some (toBytes ix.vectors))

theorem load_congr {json : HeaderJson} {dir dir' : Dir}
    (h : indexFiles dir = indexFiles dir') (fingerprint : String) (dims : Nat) :
    Index.load json dir fingerprint dims =
      Index.load json dir' fingerprint dims := by
  have hentries : dir "entries.json" = dir' "entries.json" :=
    congrArg Prod.fst h
  have hvectors : dir "vectors.f32" = dir' "vectors.f32" :=
    congrArg Prod.snd h
  simp only [Index.load, hentries, hvectors]

theorem indexFiles_apply_take (json : HeaderJson) (ix : Index F32)
    (fingerprint : String) :
    ∀ op ∈ (saveOps json ix fingerprint).take 3, ∀ dir,
      indexFiles (op.apply dir) = indexFiles dir := by
  intro op hop dir
  simp only [saveOps, List.take_succ_cons, List.take_zero, List.mem_cons,
    List.not_mem_nil, or_false] at hop
  rcases hop with rfl | rfl | rfl
  · rfl
  · simp [indexFiles, FileOp.apply, Function.update]
  · simp [indexFiles, FileOp.apply, Function.update]

/-- After the first rename the directory has the new vectors and the old
entries. -/
theorem indexFiles_cut_four (json : HeaderJson) (ix : Index F32)
    (fingerprint : String) (dir : Dir) :
    indexFiles (cut FileOp.apply (saveOps json ix fingerprint) 4 dir) =
      (dir "entries.json", some (toBytes ix.vectors)) := by
  simp [cut, run, saveOps, indexFiles, FileOp.apply, Function.update]

theorem indexFiles_run_saveOps (json : HeaderJson) (ix : Index F32)
    (fingerprint : String) (dir : Dir) :
    indexFiles (run FileOp.apply (saveOps json ix fingerprint) dir) =
      savedFiles json ix fingerprint := by
  simp [run, saveOps, indexFiles, savedFiles, FileOp.apply, Function.update]

theorem indexFiles_cut_of_le (json : HeaderJson) (ix : Index F32)
    (fingerprint : String) {k : Nat} (hk : k ≤ 3) (dir : Dir) :
    indexFiles (cut FileOp.apply (saveOps json ix fingerprint) k dir) =
      indexFiles dir :=
  observe_cut indexFiles hk (indexFiles_apply_take json ix fingerprint) dir

theorem indexFiles_save_none (json : HeaderJson) (ix : Index F32)
    (fingerprint : String) (dir : Dir) :
    indexFiles (Index.save json ix fingerprint none dir).2 =
      savedFiles json ix fingerprint :=
  indexFiles_run_saveOps json ix fingerprint dir

/-- What `load` makes of entries and vectors that saves of this fingerprint
and vector size wrote, not necessarily the same save. -/
theorem load_of_files {json : HeaderJson} {dir : Dir} {fingerprint : String}
    {dims : Nat} {entries : List Entry} {vectors : List F32}
    (h : indexFiles dir =
      (some (json.toVec ⟨fingerprint, dims, entries⟩), some (toBytes vectors))) :
    Index.load json dir fingerprint dims =
      if vectors.length = entries.length * dims then
        some { dims := dims, entries := entries, vectors := vectors,
               byId := positions entries }
      else none := by
  have hentries : dir "entries.json" =
      some (json.toVec ⟨fingerprint, dims, entries⟩) := congrArg Prod.fst h
  have hvectors : dir "vectors.f32" = some (toBytes vectors) :=
    congrArg Prod.snd h
  simp only [Index.load, hentries, hvectors, Option.bind_some,
    json.fromSlice_toVec, ne_eq, not_true_eq_false, or_self, if_false,
    length_toBytes, fromBytes_toBytes]
  by_cases hlength : vectors.length = entries.length * dims
  · rw [if_neg (by simp [hlength]), if_pos hlength]
  · rw [if_pos (by omega), if_neg hlength]

theorem load_of_savedFiles {json : HeaderJson} {dir : Dir} {ix : Index F32}
    (hix : ix.WellFormed) {fingerprint : String}
    (h : indexFiles dir = savedFiles json ix fingerprint) :
    Index.load json dir fingerprint ix.dims = some ix := by
  rw [load_of_files h, if_pos hix.vectors_length, ← hix.byId_eq]

theorem load_save {json : HeaderJson} {ix : Index F32} (hix : ix.WellFormed)
    (fingerprint : String) (dir : Dir) :
    Index.load json (Index.save json ix fingerprint none dir).2 fingerprint
      ix.dims = some ix :=
  load_of_savedFiles hix (indexFiles_save_none json ix fingerprint dir)

theorem load_of_other {json : HeaderJson} {dir : Dir} {ix : Index F32}
    {fingerprint fingerprint' : String} {dims : Nat}
    (h : indexFiles dir = savedFiles json ix fingerprint)
    (hne : fingerprint ≠ fingerprint' ∨ ix.dims ≠ dims) :
    Index.load json dir fingerprint' dims = none := by
  have hentries : dir "entries.json" =
      some (json.toVec (Index.header ix fingerprint)) := congrArg Prod.fst h
  simp only [Index.load, hentries, Option.bind_some, json.fromSlice_toVec]
  exact if_pos hne

end AssistantHub.IndexFiles
