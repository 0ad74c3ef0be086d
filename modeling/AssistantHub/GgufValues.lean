import AssistantHub.FileContents
import AssistantHub.GgufHeader

namespace AssistantHub.GgufValues

open AssistantHub.BuildArithmetic
open AssistantHub.FileContents
open AssistantHub.FileReaders
open AssistantHub.GgufHeader
open AssistantHub.LittleEndian

/-- A value of any type of the format, with strings and arrays of any length. -/
inductive MetaValue where
  | scalar (kind : Nat) (bytes : Bytes)
  | string (bytes : Bytes)
  | array (elem : Nat) (values : List MetaValue)

def MetaValue.kind : MetaValue → Nat
  | .scalar kind _ => kind
  | .string _ => stringType
  | .array _ _ => arrayType

mutual

def MetaValue.encode : MetaValue → Bytes
  | .scalar _ bytes => bytes
  | .string bytes => leBytes 8 bytes.length ++ bytes
  | .array elem values =>
      leBytes 4 elem ++ (leBytes 8 values.length ++ MetaValue.encodeAll values)

def MetaValue.encodeAll : List MetaValue → Bytes
  | [] => []
  | v :: values => v.encode ++ MetaValue.encodeAll values

end

/-- Sizes and counts fit their fields, and the elements of an array have its
type. -/
inductive MetaValue.WellFormed : MetaValue → Prop
  | scalar {kind : Nat} {bytes : Bytes}
      (hsize : scalarSize kind = some bytes.length) :
      WellFormed (.scalar kind bytes)
  | string {bytes : Bytes} (hlength : bytes.length < 2 ^ 64) :
      WellFormed (.string bytes)
  | array {elem : Nat} {values : List MetaValue} (helem : elem < 2 ^ 32)
      (hcount : values.length < 2 ^ 64)
      (hkind : ∀ v ∈ values, v.kind = elem)
      (hvalues : ∀ v ∈ values, v.WellFormed) :
      WellFormed (.array elem values)

section Numbers

variable {file : File}

theorem decodes_bytes (b : Bytes) : Decodes file (bytes file b.length) b b :=
  Decodes.readExact _ b

theorem decodes_leBytes {count n : Nat} (h : n < 2 ^ (8 * count)) :
    Decodes file (leNat <$> bytes file count) (leBytes count n) n := by
  have hread : Decodes file (leNat <$> bytes file (leBytes count n).length) _ _ :=
    (decodes_bytes (leBytes count n)).map leNat
  rwa [length_leBytes, leNat_leBytes h] at hread

theorem decodes_u32 {n : Nat} (h : n < 2 ^ 32) :
    Decodes file (u32 file) (leBytes 4 n) n :=
  decodes_leBytes h

theorem decodes_u64 {n : Nat} (h : n < 2 ^ 64) :
    Decodes file (u64 file) (leBytes 8 n) n :=
  decodes_leBytes h

/-- What a file has is short enough to be skipped. -/
theorem decodes_skip (b : Bytes) : Decodes file (skip file b.length) b () := by
  intro pos h
  rw [skip, if_pos h.length_lt]
  exact Decodes.seekRelative b h

theorem decodes_string {b : Bytes} (h : b.length ≤ 2 ^ 20) :
    Decodes file (string file) (leBytes 8 b.length ++ b) b := by
  refine (decodes_u64 (by omega)).bind ?_
  rw [if_neg (Nat.not_lt.mpr h)]
  exact decodes_bytes b

end Numbers

section Values

variable {file : File}

theorem encodeAll_eq (values : List MetaValue) :
    MetaValue.encodeAll values = (values.map MetaValue.encode).flatten := by
  induction values with
  | nil => rfl
  | cons v values ih =>
      rw [MetaValue.encodeAll, ih, List.map_cons, List.flatten_cons]

theorem length_encodeAll {elem n : Nat} {values : List MetaValue}
    (helem : scalarSize elem = some n) (hkind : ∀ v ∈ values, v.kind = elem)
    (hvalues : ∀ v ∈ values, v.WellFormed) :
    (MetaValue.encodeAll values).length = n * values.length := by
  induction values with
  | nil => rfl
  | cons v values ih =>
      rw [List.forall_mem_cons] at hkind hvalues
      have hv : v.encode.length = n := by
        rw [← hkind.1] at helem
        rcases hvalues.1 with hsize | _ | _
        · exact Option.some.inj (hsize.symm.trans helem)
        · cases helem
        · cases helem
      rw [MetaValue.encodeAll, List.length_append, hv, ih hkind.2 hvalues.2,
        List.length_cons, Nat.mul_succ, Nat.add_comm]

theorem length_encode_le {v : MetaValue} {values : List MetaValue}
    (h : v ∈ values) :
    v.encode.length ≤ (MetaValue.encodeAll values).length := by
  rw [encodeAll_eq]
  exact (List.sublist_flatten_of_mem (List.mem_map_of_mem h)).length_le

theorem lt_of_scalarSize {t n : Nat} (h : scalarSize t = some n) : t < 2 ^ 32 := by
  rw [scalarSize.eq_def] at h
  split at h
  all_goals first | omega | cases h

theorem kind_lt {v : MetaValue} (h : v.WellFormed) : v.kind < 2 ^ 32 := by
  rcases h with hsize | _ | _
  · exact lt_of_scalarSize hsize
  · show stringType < _
    decide
  · show arrayType < _
    decide

/-- By induction on the value: an array of scalars is skipped at once, another
one element by element. -/
theorem decodes_skipValue {v : MetaValue} (h : v.WellFormed) {depth : Nat}
    (hdepth : v.encode.length < depth) :
    Decodes file (skipValue file depth v.kind) v.encode () := by
  induction h generalizing depth with
  | @scalar kind bytes hsize =>
      obtain ⟨depth, rfl⟩ := Nat.exists_eq_add_one.mpr (Nat.zero_lt_of_lt hdepth)
      show Decodes file (skipValueWith file _ kind) bytes ()
      rw [skipValueWith, hsize]
      exact decodes_skip bytes
  | @string bytes hlength =>
      obtain ⟨depth, rfl⟩ := Nat.exists_eq_add_one.mpr (Nat.zero_lt_of_lt hdepth)
      show Decodes file (do let len ← u64 file; skip file len)
        (leBytes 8 bytes.length ++ bytes) ()
      exact (decodes_u64 hlength).bind (decodes_skip bytes)
  | @array elem values helem hcount hkind hvalues ih =>
      obtain ⟨depth, rfl⟩ := Nat.exists_eq_add_one.mpr (Nat.zero_lt_of_lt hdepth)
      rw [MetaValue.encode, List.length_append, List.length_append, length_leBytes,
        length_leBytes] at hdepth
      rw [MetaValue.encode]
      refine (decodes_u32 helem).bind ((decodes_u64 hcount).bind ?_)
      rcases hsize : scalarSize elem with _ | n
      · show Decodes file (times values.length (skipValue file depth elem)) _ ()
        rw [encodeAll_eq, ← List.length_map (f := MetaValue.encode)]
        refine Decodes.times fun content hcontent => ?_
        obtain ⟨v, hv, rfl⟩ := List.mem_map.mp hcontent
        have hshort := length_encode_le hv
        rw [← hkind v hv]
        exact ih v hv (by omega)
      · have hlength := length_encodeAll hsize hkind hvalues
        intro pos hholds
        have hword := hholds.length_lt
        show (if n * values.length < 2 ^ 64 then skip file (n * values.length)
          else fail "bad array") pos = _
        rw [← hlength, if_pos (by omega)]
        exact decodes_skip _ hholds

/-- The depth that the readers begin with is enough for every value. -/
theorem decodes_value {v : MetaValue} (h : v.WellFormed) :
    Decodes file (skipValue file (file.bytes.length + 1) v.kind) v.encode () := by
  intro pos hholds
  have hlength := hholds.le_length
  exact decodes_skipValue h (by omega) hholds

end Values

end AssistantHub.GgufValues
