import AssistantHub.GgufFiles
import AssistantHub.GgufValues
import AssistantHub.LossyText

namespace AssistantHub.GgufMetadata

open AssistantHub.BuildArithmetic
open AssistantHub.Fallible
open AssistantHub.FileContents
open AssistantHub.FileReaders
open AssistantHub.GgufFiles
open AssistantHub.GgufHeader
open AssistantHub.GgufValues
open AssistantHub.LittleEndian
open AssistantHub.LossyText

section Reading

variable (file : File)

/-- The loop over the pairs, up to the first string under the wanted key. -/
def findString (wanted : Bytes) : Nat → Reader (Option String)
  | 0 => return none
  | kvs + 1 => do
      let key ← string file
      let t ← u32 file
      if key = wanted ∧ t = stringType then do
        let value ← string file
        return some (fromUtf8Lossy value)
      else do
        skipValue file (file.bytes.length + 1) t
        findString wanted kvs

def readWanted (wanted : Bytes) : Reader (Option String) := do
  let start ← bytes file 4
  if start ≠ magic then fail "not a GGUF file (bad magic)"
  else do
    let _version ← u32 file
    let _tensors ← u64 file
    let kvs ← u64 file
    findString file wanted kvs

/-- A string value from the GGUF metadata. `none` if the file has no such key or
the value is no string. -/
def metadataString (wanted : String) : Except Failure (Option String) := do
  let (value, _) ← readWanted file (utf8 wanted.toList) 0
  return value

end Reading

/-- A key with its value, as a file stores them. -/
structure Pair where
  key : Text
  value : MetaValue
  wellFormed : value.WellFormed

def Pair.encode (p : Pair) : Bytes :=
  p.key.encode ++ (leBytes 4 p.value.kind ++ p.value.encode)

/-- The string that a pair stores under a key. -/
def Pair.textUnder (wanted : Bytes) (p : Pair) : Option Bytes :=
  match p.value with
  | .string bytes => if p.key.bytes = wanted then some bytes else none
  | _ => none

/-- The beginning of a file, up to its last pair. -/
structure Metadata where
  version : Nat
  tensors : Nat
  pairs : List Pair
  version_lt : version < 2 ^ 32
  tensors_lt : tensors < 2 ^ 64
  pairs_lt : pairs.length < 2 ^ 64

def Metadata.encode (m : Metadata) : Bytes :=
  magic ++ (leBytes 4 m.version ++ (leBytes 8 m.tensors ++
    (leBytes 8 m.pairs.length ++ (m.pairs.map Pair.encode).flatten)))

/-- The first string under a key, whatever else is stored under it. -/
def Metadata.lookup (m : Metadata) (wanted : Bytes) : Option Bytes :=
  m.pairs.findSome? (Pair.textUnder wanted)

section Pairs

variable {file : File} {wanted : Bytes} {p : Pair} {pairs : List Pair}

theorem textUnder_eq_some {bytes : Bytes} :
    p.textUnder wanted = some bytes ↔
      p.value = .string bytes ∧ p.key.bytes = wanted := by
  obtain ⟨key, value, hvalue⟩ := p
  rcases value with _ | b | _
  · simp [Pair.textUnder]
  · simp [Pair.textUnder, and_comm]
  · simp [Pair.textUnder]

theorem kind_of_textUnder_eq_none (h : p.textUnder wanted = none) :
    ¬(p.key.bytes = wanted ∧ p.value.kind = stringType) := by
  rintro ⟨hkey, hkind⟩
  rcases hvalue : p.value with ⟨kind, bytes⟩ | bytes | _
  · -- No scalar has the type of a string.
    have hsize := p.wellFormed
    rw [hvalue] at hkind hsize
    obtain ⟨hsize⟩ := hsize
    rw [show kind = stringType from hkind] at hsize
    cases hsize
  · rw [textUnder_eq_some.mpr ⟨hvalue, hkey⟩] at h
    cases h
  · rw [hvalue] at hkind
    cases hkind

theorem findString_of_text {bytes : Bytes} {pos : Nat} (kvs : Nat)
    (hholds : Holds file pos p.encode) (h : p.textUnder wanted = some bytes)
    (hshort : bytes.length ≤ 2 ^ 20) :
    ∃ pos', findString file wanted (kvs + 1) pos =
      .ok (some (fromUtf8Lossy bytes), pos') := by
  obtain ⟨hvalue, hkey⟩ := textUnder_eq_some.mp h
  have hkind : stringType < 2 ^ 32 := by decide
  rw [Pair.encode, hvalue] at hholds
  refine ⟨_, ((decodes_text p.key).bind ((decodes_u32 hkind).bind ?_)) hholds⟩
  rw [if_pos ⟨hkey, rfl⟩]
  exact (decodes_string hshort).bind_pure fun value => some (fromUtf8Lossy value)

theorem findString_of_other {pos : Nat} (kvs : Nat)
    (hholds : Holds file pos p.encode) (h : p.textUnder wanted = none) :
    findString file wanted (kvs + 1) pos =
      findString file wanted kvs (pos + p.encode.length) := by
  rw [Pair.encode] at hholds
  rw [findString, (decodes_text p.key).bind_run hholds.left,
    (decodes_u32 (kind_lt p.wellFormed)).bind_run hholds.right.left,
    if_neg (kind_of_textUnder_eq_none h),
    (decodes_value p.wellFormed).bind_run hholds.right.right, Pair.encode,
    List.length_append, List.length_append, Nat.add_assoc, Nat.add_assoc]

/-- By induction on the pairs: the loop stops at the first one that stores a
string under the key. -/
theorem findString_of_holds {pos : Nat}
    (hholds : Holds file pos (pairs.map Pair.encode).flatten)
    (hshort : ∀ s ∈ pairs.findSome? (Pair.textUnder wanted), s.length ≤ 2 ^ 20) :
    ∃ pos', findString file wanted pairs.length pos =
      .ok ((pairs.findSome? (Pair.textUnder wanted)).map fromUtf8Lossy, pos') := by
  induction pairs generalizing pos with
  | nil => exact ⟨pos, rfl⟩
  | cons p pairs ih =>
      rw [List.map_cons, List.flatten_cons] at hholds
      rw [List.findSome?_cons] at hshort ⊢
      rw [List.length_cons]
      rcases htext : p.textUnder wanted with _ | bytes
      · rw [htext] at hshort
        rw [findString_of_other _ hholds.left htext]
        exact ih hholds.right hshort
      · rw [htext] at hshort
        exact findString_of_text _ hholds.left htext (hshort bytes rfl)

end Pairs

/-- Looking a key up in an encoded file gives the first string under it, and the
values of every type are skipped exactly. -/
theorem metadataString_exact (m : Metadata) (file : File) (wanted : String) :
    ((∃ after, file.bytes = m.encode ++ after) →
      (∀ s ∈ m.lookup (utf8 wanted.toList), s.length ≤ 2 ^ 20) →
      metadataString file wanted =
        .ok ((m.lookup (utf8 wanted.toList)).map fromUtf8Lossy)) ∧
    (∀ text : String, fromUtf8Lossy (utf8 text.toList) = text) ∧
    ∀ v : MetaValue, v.WellFormed →
      Decodes file (skipValue file (file.bytes.length + 1) v.kind) v.encode () := by
  refine ⟨?_, fromUtf8Lossy_utf8, fun _ => decodes_value⟩
  rintro ⟨after, hfile⟩ hshort
  have hholds : Holds file 0 m.encode := ⟨[], after, hfile, rfl⟩
  rw [Metadata.encode] at hholds
  obtain ⟨pos', hfind⟩ := findString_of_holds hholds.right.right.right.right hshort
  have hmagic : Decodes file (bytes file 4) magic magic := decodes_bytes magic
  rw [metadataString, readWanted, hmagic.bind_run hholds.left,
    if_neg (not_not.mpr rfl), (decodes_u32 m.version_lt).bind_run hholds.right.left,
    (decodes_u64 m.tensors_lt).bind_run hholds.right.right.left,
    (decodes_u64 m.pairs_lt).bind_run hholds.right.right.right.left, hfind]
  rfl

def nameKey : Text := ⟨[110, 97, 109, 101], by decide⟩

/-- A nested list and then a text, both under the same key. -/
def namedTwice : Metadata where
  version := 3
  tensors := 0
  pairs :=
    [⟨nameKey, nestedList.toMeta, wellFormed_toMeta wellFormed_nestedList⟩,
      ⟨nameKey, .string [116, 101, 115, 116], .string (by decide)⟩]
  version_lt := threeFloats.version_lt
  tensors_lt := Nat.two_pow_pos 64
  pairs_lt := by decide

theorem metadataString_namedTwice :
    ∃ file : File, file.bytes = namedTwice.encode ∧
      metadataString file "name" = .ok (some "test") ∧
      metadataString file "tags" = .ok none ∧
      Decodes file (skipValue file (file.bytes.length + 1) nestedList.toMeta.kind)
        nestedList.toMeta.encode () := by
  refine ⟨⟨namedTwice.encode, 2 ^ 63 - 1, by decide +kernel, by decide⟩, rfl, ?_⟩
  obtain ⟨hname, -, hskip⟩ := metadataString_exact namedTwice _ "name"
  obtain ⟨htags, -⟩ := metadataString_exact namedTwice _ "tags"
  refine ⟨(hname ⟨[], (List.append_nil _).symm⟩ (by decide +kernel)).trans ?_,
    (htags ⟨[], (List.append_nil _).symm⟩ (by decide +kernel)).trans ?_,
    hskip _ (wellFormed_toMeta wellFormed_nestedList)⟩
  · decide +kernel
  · decide +kernel

end AssistantHub.GgufMetadata
