import AssistantHub.FileContents
import AssistantHub.GgufCheck
import AssistantHub.GgufValues

namespace AssistantHub.GgufFiles

open AssistantHub.BuildArithmetic
open AssistantHub.Fallible
open AssistantHub.FileContents
open AssistantHub.FileReaders
open AssistantHub.GgufCheck
open AssistantHub.GgufHeader
open AssistantHub.GgufValues
open AssistantHub.LittleEndian

/-- A string of at most 1 MiB. -/
structure Text where
  bytes : Bytes
  length_le : bytes.length ≤ 2 ^ 20

def Text.encode (s : Text) : Bytes :=
  leBytes 8 s.bytes.length ++ s.bytes

/-- A value of the metadata; the elements of an array have one type. -/
inductive Value where
  | scalar (kind : Nat) (bytes : Bytes)
  | string (s : Text)
  | array (elem : Nat) (values : List Value)

def Value.kind : Value → Nat
  | .scalar kind _ => kind
  | .string _ => stringType
  | .array _ _ => arrayType

mutual

def Value.encode : Value → Bytes
  | .scalar _ bytes => bytes
  | .string s => s.encode
  | .array elem values =>
      leBytes 4 elem ++ (leBytes 8 values.length ++ Value.encodeAll values)

def Value.encodeAll : List Value → Bytes
  | [] => []
  | v :: values => v.encode ++ Value.encodeAll values

end

inductive Value.WellFormed : Value → Prop
  | scalar {kind : Nat} {bytes : Bytes}
      (hsize : scalarSize kind = some bytes.length) :
      WellFormed (.scalar kind bytes)
  | string (s : Text) : WellFormed (.string s)
  | array {elem : Nat} {values : List Value} (helem : elem < 2 ^ 32)
      (hcount : values.length < 2 ^ 64)
      (hkind : ∀ v ∈ values, v.kind = elem)
      (hvalues : ∀ v ∈ values, v.WellFormed) :
      WellFormed (.array elem values)

structure Entry where
  key : Text
  value : Value
  wellFormed : value.WellFormed

def Entry.encode (e : Entry) : Bytes :=
  e.key.encode ++ (leBytes 4 e.value.kind ++ e.value.encode)

/-- The alignment that an entry sets. -/
def Entry.alignment (e : Entry) : Option Nat :=
  match e.value with
  | .scalar _ bytes =>
      if e.key.bytes = alignmentKey then some (max (leNat bytes) 1) else none
  | _ => none

/-- A tensor of a known type, with a number of elements and of bytes that fits
in 64 bits. -/
structure TensorInfo extends Tensor where
  name : Text
  rank_lt : dims.length < 2 ^ 32
  dims_lt : ∀ d ∈ dims, d < 2 ^ 64
  offset_lt : offset < 2 ^ 64
  known : (typeSize kind).isSome
  elements_lt : dims.prod < 2 ^ 64
  size_lt : ∀ n ∈ toTensor.bytes id, n < 2 ^ 64

def TensorInfo.size (t : TensorInfo) : Nat :=
  (t.bytes id).getD 0

def TensorInfo.encode (t : TensorInfo) : Bytes :=
  t.name.encode ++ (leBytes 4 t.dims.length ++
    ((t.dims.map (leBytes 8)).flatten ++ (leBytes 4 t.kind ++ leBytes 8 t.offset)))

/-- The header of a file: the metadata and the table of the tensors. -/
structure Head where
  version : Nat
  entries : List Entry
  tensors : List TensorInfo
  version_lt : version < 2 ^ 32
  entries_lt : entries.length < 2 ^ 64
  tensors_lt : tensors.length < 2 ^ 64

def Head.encode (h : Head) : Bytes :=
  magic ++ (leBytes 4 h.version ++ (leBytes 8 h.tensors.length ++
    (leBytes 8 h.entries.length ++ ((h.entries.map Entry.encode).flatten ++
      (h.tensors.map TensorInfo.encode).flatten))))

/-- The last alignment that the metadata sets. -/
def Head.alignment (h : Head) : Nat :=
  h.entries.foldl (fun alignment e => e.alignment.getD alignment) 32

def Head.dataStart (h : Head) : Nat :=
  roundUp h.encode.length h.alignment

/-- A well-formed GGUF file: the data of the tensors starts at the aligned end
of the header. -/
structure Gguf extends Head where
  padding : Bytes
  data : Bytes
  length_padding :
    toHead.encode.length + padding.length = toHead.dataStart
  holds : ∀ t ∈ tensors, t.offset + t.size ≤ data.length

def Gguf.encode (g : Gguf) : Bytes :=
  g.toHead.encode ++ (g.padding ++ g.data)

/-- The end of the last tensor's data. -/
def Gguf.dataEnd (g : Gguf) : Nat :=
  (g.tensors.map fun t => g.dataStart + (t.offset + t.size)).foldl max
    g.dataStart

section Cuts

variable {file cut : File} (h : Cut file cut)

include h

theorem follows_u32 : Follows (u32 file) (u32 cut) :=
  (Follows.readExact h _ 4).map leNat

theorem follows_u64 : Follows (u64 file) (u64 cut) :=
  (Follows.readExact h _ 8).map leNat

theorem follows_skip (n : Nat) : Follows (skip file n) (skip cut n) :=
  Follows.ite (Follows.seekRelative h n) (Follows.fail _ _)

theorem follows_string : Follows (string file) (string cut) :=
  (follows_u64 h).bind fun len =>
    Follows.ite (Follows.fail _ _) (Follows.readExact h _ len)

theorem follows_skipValueWith {element element' : Nat → Reader Unit}
    (helement : ∀ t, Follows (element' t) (element t)) (t : Nat) :
    Follows (skipValueWith file element' t) (skipValueWith cut element t) := by
  rw [skipValueWith, skipValueWith]
  rcases scalarSize t with _ | n
  · refine Follows.ite ((follows_u64 h).bind fun len => follows_skip h len) ?_
    refine Follows.ite ?_ (Follows.fail _ _)
    refine (follows_u32 h).bind fun elem => (follows_u64 h).bind fun count => ?_
    rcases scalarSize elem with _ | n
    · exact (helement elem).times count
    · exact Follows.ite (follows_skip h _) (Follows.fail _ _)
  · exact follows_skip h n

theorem follows_skipValue {depth depth' : Nat} (hdepth : depth ≤ depth')
    (t : Nat) : Follows (skipValue file depth' t) (skipValue cut depth t) := by
  induction depth generalizing depth' t with
  | zero => exact Follows.fail _ _
  | succ depth ih =>
      rcases depth' with _ | depth'
      · omega
      · exact follows_skipValueWith h (ih (Nat.le_of_succ_le_succ hdepth)) t

theorem follows_readEntry (alignment : Nat) :
    Follows (readEntry file alignment) (readEntry cut alignment) := by
  refine (follows_string h).bind fun key => (follows_u32 h).bind fun t => ?_
  have hskip : Follows
      (do skipValue file (file.bytes.length + 1) t; return alignment : Reader Nat)
      (do skipValue cut (cut.bytes.length + 1) t; return alignment) := by
    have hdepth := Nat.succ_le_succ h.isPrefix.length_le
    exact (follows_skipValue h hdepth t).bind fun _ => Follows.refl _
  rcases scalarSize t with _ | n
  · exact hskip
  · rcases decide (key = alignmentKey) with _ | _
    · exact hskip
    · exact (Follows.readExact h _ n).bind fun buf => Follows.refl _

theorem follows_readMetadata (kvs alignment : Nat) :
    Follows (readMetadata file kvs alignment) (readMetadata cut kvs alignment) := by
  induction kvs generalizing alignment with
  | zero => exact Follows.refl _
  | succ kvs ih => exact (follows_readEntry h alignment).bind ih

theorem follows_readCounts : Follows (readCounts file) (readCounts cut) :=
  (follows_u32 h).bind fun _ => (follows_u64 h).bind fun _ =>
    (follows_u64 h).bind fun kvs =>
      (follows_readMetadata h kvs 32).bind fun _ => Follows.refl _

theorem follows_readPreamble : Follows (readPreamble file) (readPreamble cut) :=
  (Follows.readExact h _ 4).bind fun _ =>
    Follows.ite (Follows.fail _ _) (follows_readCounts h)

theorem follows_readDims (n : Nat) :
    Follows (readDims file n) (readDims cut n) := by
  induction n with
  | zero => exact Follows.refl _
  | succ n ih =>
      exact (follows_u64 h).bind fun _ => ih.bind fun _ => Follows.refl _

theorem follows_readTensor : Follows (readTensor file) (readTensor cut) :=
  (follows_string h).bind fun _ => (follows_u32 h).bind fun n =>
    (follows_readDims h n).bind fun _ => (follows_u32 h).bind fun _ =>
      (follows_u64 h).bind fun _ => Follows.refl _

theorem readTable_cut (n pos : Nat) :
    (readTable cut n pos).1 <+: (readTable file n pos).1 ∧
      ∀ finish, (readTable cut n pos).2 = .ok finish →
        readTable cut n pos = readTable file n pos := by
  induction n generalizing pos with
  | zero => exact ⟨List.prefix_rfl, fun _ _ => rfl⟩
  | succ n ih =>
      rw [readTable, readTable]
      rcases hread : readTensor cut pos with failure | ⟨t, next⟩
      · exact ⟨List.nil_prefix, fun finish hfinish => by cases hfinish⟩
      · rw [follows_readTensor h hread]
        obtain ⟨hbegins, hwhole⟩ := ih next
        refine ⟨(List.prefix_cons_inj t).mpr hbegins, ?_⟩
        intro finish hfinish
        simp only [hwhole finish hfinish]

/-- A cut header begins the whole one, and is the whole one if its table ends. -/
theorem readHeader_cut {h' : Header} (hcut : readHeader cut = .ok h') :
    ∃ whole, readHeader file = .ok whole ∧ h'.tensors <+: whole.tensors ∧
      ∀ finish, h'.finish = .ok finish → h' = whole := by
  obtain ⟨⟨⟨tensors, alignment⟩, pos⟩, hpreamble, hrest⟩ := bind_eq_ok.mp hcut
  cases hrest
  obtain ⟨hbegins, hwhole⟩ := readTable_cut h tensors pos
  refine ⟨_, bind_eq_ok.mpr ⟨_, follows_readPreamble h hpreamble, rfl⟩,
    hbegins, ?_⟩
  intro finish hfinish
  simp only [hwhole finish hfinish]

end Cuts

section Contents

variable {file : File}

theorem decodes_text (s : Text) :
    Decodes file (string file) s.encode s.bytes :=
  decodes_string s.length_le

mutual

/-- A value among those with strings of any length. -/
def Value.toMeta : Value → MetaValue
  | .scalar kind bytes => .scalar kind bytes
  | .string s => .string s.bytes
  | .array elem values => .array elem (Value.toMetaAll values)

def Value.toMetaAll : List Value → List MetaValue
  | [] => []
  | v :: values => v.toMeta :: Value.toMetaAll values

end

theorem kind_toMeta (v : Value) : v.toMeta.kind = v.kind := by
  rcases v with _ | _ | _ <;> rfl

theorem toMetaAll_eq (values : List Value) :
    Value.toMetaAll values = values.map Value.toMeta := by
  induction values with
  | nil => rfl
  | cons v values ih => rw [Value.toMetaAll, ih, List.map_cons]

mutual

theorem encode_toMeta (v : Value) : v.toMeta.encode = v.encode := by
  rcases v with _ | _ | ⟨elem, values⟩
  · rfl
  · rfl
  · rw [Value.toMeta, MetaValue.encode, Value.encode, encodeAll_toMetaAll,
      toMetaAll_eq, List.length_map]

theorem encodeAll_toMetaAll (values : List Value) :
    MetaValue.encodeAll (Value.toMetaAll values) = Value.encodeAll values := by
  rcases values with _ | ⟨v, values⟩
  · rfl
  · rw [Value.toMetaAll, MetaValue.encodeAll, Value.encodeAll, encode_toMeta v,
      encodeAll_toMetaAll values]

end

theorem wellFormed_toMeta {v : Value} (h : v.WellFormed) :
    v.toMeta.WellFormed := by
  induction h with
  | scalar hsize => exact .scalar hsize
  | string s =>
      have hle := s.length_le
      exact .string (by omega)
  | @array elem values helem hcount hkind hvalues ih =>
      have hmeta : ∀ {P : MetaValue → Prop}, (∀ v ∈ values, P v.toMeta) →
          ∀ v ∈ Value.toMetaAll values, P v := by
        intro P hall
        rwa [toMetaAll_eq, List.forall_mem_map]
      refine .array helem ?_ (hmeta fun v hv => ?_) (hmeta ih)
      · rwa [toMetaAll_eq, List.length_map]
      · rw [kind_toMeta, hkind v hv]

theorem kind_lt_of_wellFormed {v : Value} (h : v.WellFormed) : v.kind < 2 ^ 32 := by
  rw [← kind_toMeta]
  exact kind_lt (wellFormed_toMeta h)

theorem decodes_skipValue_kind {v : Value} (h : v.WellFormed) :
    Decodes file (skipValue file (file.bytes.length + 1) v.kind) v.encode () := by
  rw [← kind_toMeta, ← encode_toMeta]
  exact decodes_value (wellFormed_toMeta h)

theorem decodes_skipped (file : File) (e : Entry) (alignment : Nat) :
    Decodes file
      (do skipValue file (file.bytes.length + 1) e.value.kind; return alignment)
      e.value.encode alignment :=
  (decodes_skipValue_kind e.wellFormed).bind_pure fun _ => alignment

theorem decodes_readEntry (e : Entry) (alignment : Nat) :
    Decodes file (readEntry file alignment) e.encode
      (e.alignment.getD alignment) := by
  refine (decodes_text e.key).bind ?_
  refine (decodes_u32 (kind_lt_of_wellFormed e.wellFormed)).bind ?_
  have hskip := decodes_skipped file e alignment
  obtain ⟨key, value, hvalue⟩ := e
  rcases hvalue with hsize | s | _
  · rename_i kind bytes
    by_cases hkey : key.bytes = alignmentKey
    · simp only [Value.kind, Entry.alignment, hsize, hkey, decide_true, if_true]
      exact (Decodes.readExact _ bytes).bind_pure fun b => max (leNat b) 1
    · simp only [Value.kind, Entry.alignment, hsize, hkey, decide_false, if_false]
      exact hskip
  · exact hskip
  · exact hskip

theorem decodes_readMetadata (entries : List Entry) (alignment : Nat) :
    Decodes file (readMetadata file entries.length alignment)
      (entries.map Entry.encode).flatten
      (entries.foldl (fun alignment e => e.alignment.getD alignment) alignment) := by
  induction entries generalizing alignment with
  | nil => exact Decodes.pure alignment
  | cons e entries ih => exact (decodes_readEntry e alignment).bind (ih _)

theorem decodes_readDims {dims : List Nat} (h : ∀ d ∈ dims, d < 2 ^ 64) :
    Decodes file (readDims file dims.length) (dims.map (leBytes 8)).flatten dims := by
  induction dims with
  | nil => exact Decodes.pure []
  | cons d dims ih =>
      rw [List.forall_mem_cons] at h
      exact (decodes_u64 h.1).bind ((ih h.2).bind_pure fun dims => d :: dims)

theorem TensorInfo.kind_lt (t : TensorInfo) : t.kind < 2 ^ 32 := by
  have hknown := t.known
  rw [typeSize.eq_def] at hknown
  split at hknown
  all_goals first | omega | cases hknown

theorem decodes_readTensor (t : TensorInfo) :
    Decodes file (readTensor file) t.encode t.toTensor := by
  refine (decodes_text t.name).bind ((decodes_u32 t.rank_lt).bind ?_)
  refine (decodes_readDims t.dims_lt).bind ((decodes_u32 t.kind_lt).bind ?_)
  exact (decodes_u64 t.offset_lt).bind_pure (Tensor.mk t.dims t.kind)

theorem readTable_of_holds {tensors : List TensorInfo} {pos : Nat}
    (h : Holds file pos (tensors.map TensorInfo.encode).flatten) :
    readTable file tensors.length pos =
      (tensors.map TensorInfo.toTensor,
        .ok (pos + (tensors.map TensorInfo.encode).flatten.length)) := by
  induction tensors generalizing pos with
  | nil => rfl
  | cons t tensors ih =>
      rw [List.map_cons, List.flatten_cons] at h
      have hrest := ih h.right
      rw [List.length_cons, readTable, decodes_readTensor t h.left]
      simp only [hrest]
      show _ = (_, Except.ok (pos +
        (t.encode ++ (tensors.map TensorInfo.encode).flatten).length))
      rw [List.length_append, Nat.add_assoc]
      rfl

/-- The header of a whole file as the check reads it. -/
def Head.header (h : Head) : Header where
  alignment := h.alignment
  tensors := h.tensors.map TensorInfo.toTensor
  finish := .ok h.encode.length

def Head.preamble (h : Head) : Bytes :=
  magic ++ (leBytes 4 h.version ++ (leBytes 8 h.tensors.length ++
    (leBytes 8 h.entries.length ++ (h.entries.map Entry.encode).flatten)))

theorem Head.encode_eq (h : Head) :
    h.encode = h.preamble ++ (h.tensors.map TensorInfo.encode).flatten := by
  rw [Head.encode, Head.preamble]
  simp only [List.append_assoc]

theorem decodes_readPreamble (h : Head) :
    Decodes file (readPreamble file) h.preamble (h.tensors.length, h.alignment) := by
  refine (decodes_bytes magic).bind ?_
  rw [if_neg (not_not.mpr rfl)]
  refine (decodes_u32 h.version_lt).bind ((decodes_u64 h.tensors_lt).bind ?_)
  refine (decodes_u64 h.entries_lt).bind ?_
  exact (decodes_readMetadata h.entries 32).bind_pure fun alignment =>
    (h.tensors.length, alignment)

theorem readHeader_of_holds {h : Head} (hholds : Holds file 0 h.encode) :
    readHeader file = .ok h.header := by
  have hlength := congrArg List.length h.encode_eq
  rw [Head.encode_eq] at hholds
  have htable := readTable_of_holds hholds.right
  rw [List.length_append] at hlength
  rw [readHeader, decodes_readPreamble h hholds.left]
  show Except.ok _ = _
  rw [htable, Head.header, hlength, Nat.zero_add]

end Contents

section Sizes

theorem TensorInfo.bytes_id (t : TensorInfo) : t.bytes id = some t.size := by
  obtain ⟨entry, hentry⟩ := Option.isSome_iff_exists.mp t.known
  rw [TensorInfo.size, Tensor.bytes, hentry]
  rfl

/-- The number of elements is not capped. -/
theorem TensorInfo.bytes_cap (t : TensorInfo) : t.bytes cap = some t.size := by
  rw [← t.bytes_id, Tensor.bytes, Tensor.bytes, cap_of_lt t.elements_lt]
  rfl

theorem TensorInfo.size_lt_word (t : TensorInfo) : t.size < 2 ^ 64 :=
  t.size_lt t.size t.bytes_id

theorem Gguf.dataEnd_le_iff (g : Gguf) (bound : Nat) :
    g.dataEnd ≤ bound ↔ g.dataStart ≤ bound ∧
      ∀ t ∈ g.tensors, g.dataStart + (t.offset + t.size) ≤ bound := by
  rw [Gguf.dataEnd, List.max?_le_iff List.max?_cons', List.forall_mem_cons,
    List.forall_mem_map]

theorem Gguf.length_encode (g : Gguf) :
    g.encode.length = g.dataStart + g.data.length := by
  have hpadding := g.length_padding
  rw [Gguf.encode, List.length_append, List.length_append]
  omega

theorem Gguf.dataEnd_le_length (g : Gguf) : g.dataEnd ≤ g.encode.length := by
  rw [g.dataEnd_le_iff, g.length_encode]
  refine ⟨Nat.le_add_right _ _, fun t ht => ?_⟩
  exact Nat.add_le_add_left (g.holds t ht) _

theorem Head.forall_header_tensors (h : Head) {P : Tensor → Nat → Prop} :
    (∀ t ∈ h.header.tensors, ∀ n ∈ t.bytes cap, P t n) ↔
      ∀ t ∈ h.tensors, P t.toTensor t.size := by
  rw [Head.header, List.forall_mem_map]
  simp only [TensorInfo.bytes_cap, Option.mem_some, forall_eq']

theorem Head.sizes_lt (h : Head) :
    ∀ t ∈ h.header.tensors, ∀ n ∈ t.bytes cap, n < 2 ^ 64 :=
  h.forall_header_tensors.mpr fun t _ => t.size_lt_word

end Sizes

section Whole

variable {g : Gguf} {file : File} (hfile : file.bytes = g.encode)

include hfile

theorem readHeader_of_encode : readHeader file = .ok g.header := by
  refine readHeader_of_holds ⟨[], g.padding ++ g.data, ?_, rfl⟩
  rw [hfile, Gguf.encode]
  rfl

theorem data_lt : g.dataStart + g.data.length < 2 ^ 63 := by
  have hlength := file.length_le
  rw [hfile, g.length_encode] at hlength
  exact hlength.trans_lt file.maxPos_lt

theorem saturatingAdd_of_mem {t : TensorInfo} (ht : t ∈ g.tensors) :
    saturatingAdd t.offset t.size = t.offset + t.size := by
  have hholds := g.holds t ht
  have hdata := data_lt hfile
  exact cap_of_lt (by omega)

/-- Both builds compute the end of the last tensor's data. -/
theorem expectedMinSize_of_encode (build : Build) :
    expectedMinSize build file = .ok g.dataEnd := by
  have hfinish : g.header.finish = .ok g.toHead.encode.length := rfl
  obtain ⟨maxEnd, hsize, hbound⟩ := expectedMinSize_of_sizes
    (readHeader_of_encode hfile) g.sizes_lt hfinish build
  have hends : g.dataEnd = g.dataStart + maxEnd := by
    refine eq_of_forall_ge_iff fun bound => ?_
    have hlast := hbound (bound - g.dataStart)
    rw [g.forall_header_tensors] at hlast
    have hsaturated : ∀ t ∈ g.tensors, saturatingAdd t.offset t.size = _ :=
      fun t ht => saturatingAdd_of_mem hfile ht
    rw [g.dataEnd_le_iff]
    constructor
    · rintro ⟨hstart, hfits⟩
      have hmax : maxEnd ≤ bound - g.dataStart := by
        refine hlast.mpr fun t ht => ?_
        have hfit := hfits t ht
        rw [hsaturated t ht]
        omega
      omega
    · intro hmax
      refine ⟨by omega, fun t ht => ?_⟩
      have hfit := hlast.mp (by omega) t ht
      rw [hsaturated t ht] at hfit
      omega
  have hdata := data_lt hfile
  have hlength := g.dataEnd_le_length
  rw [g.length_encode] at hlength
  rw [hsize, hends]
  have hstart : g.header.start g.toHead.encode.length = g.dataStart := rfl
  rw [hstart]
  exact word_of_lt (by omega) build

theorem check_of_encode (build : Build) (path : String) :
    check build path (some file) = .accepts := by
  rw [check_eq_accepts_iff, hfile]
  exact ⟨g.dataEnd, expectedMinSize_of_encode hfile build, g.dataEnd_le_length⟩

end Whole

theorem readHeader_of_expectedMinSize {build : Build} {file : File} {want : Nat}
    (hwant : expectedMinSize build file = .ok want) :
    ∃ h finish, readHeader file = .ok h ∧ h.finish = .ok finish := by
  obtain ⟨r, hpreamble, -⟩ := bind_eq_ok.mp hwant
  have hheader : readHeader file = .ok ⟨r.1.2, (readTable file r.1.1 r.2).1,
      (readTable file r.1.1 r.2).2⟩ := bind_eq_ok.mpr ⟨r, hpreamble, rfl⟩
  rw [expectedMinSize_eq hheader] at hwant
  obtain ⟨maxEnd, -, hwant⟩ := bind_eq_ok.mp hwant
  obtain ⟨finish, hfinish, -⟩ := bind_eq_ok.mp hwant
  exact ⟨_, finish, hheader, hfinish⟩

section Truncated

variable {g : Gguf} {file cut : File} (hfile : file.bytes = g.encode)
  (h : Cut file cut)

include hfile h

theorem header_of_cut {h' : Header} (hcut : readHeader cut = .ok h') :
    h'.tensors <+: g.header.tensors ∧
      ∀ finish, h'.finish = .ok finish → h' = g.header := by
  obtain ⟨whole, hwhole, hbegins⟩ := readHeader_cut h hcut
  obtain rfl := Except.ok.inj ((readHeader_of_encode hfile).symm.trans hwhole)
  exact hbegins

theorem countable_of_cut {h' : Header} (hcut : readHeader cut = .ok h') :
    Countable cut h' := by
  obtain ⟨hbegins, hwhole⟩ := header_of_cut hfile h hcut
  refine ⟨?_, ?_, ?_⟩
  · intro t ht
    exact g.sizes_lt t (hbegins.subset ht)
  · intro finish hfinish
    obtain rfl := hwhole finish hfinish
    obtain rfl := Except.ok.inj hfinish
    refine g.forall_header_tensors.mpr fun t ht => ?_
    have hholds := g.holds t ht
    have hdata := data_lt hfile
    show g.dataStart + t.offset + t.size < 2 ^ 64
    omega
  · intro finish hfinish t ht hprod
    obtain ⟨info, -, rfl⟩ := List.mem_map.mp (hbegins.subset ht)
    exact absurd info.elements_lt (Nat.not_lt.mpr hprod)

theorem dataEnd_le_of_accepts {build : Build} {path : String}
    (haccepts : check build path (some cut) = .accepts) :
    g.dataEnd ≤ cut.bytes.length := by
  obtain ⟨want, hwant, hle⟩ := (check_eq_accepts_iff path).mp haccepts
  obtain ⟨h', finish, hcut, hfinish⟩ := readHeader_of_expectedMinSize hwant
  obtain rfl := (header_of_cut hfile h hcut).2 finish hfinish
  have hwhole := expectedMinSize_of_encode hfile build
  rw [expectedMinSize_eq (readHeader_of_encode hfile),
    ← expectedMinSize_eq hcut, hwant] at hwhole
  rwa [← Except.ok.inj hwhole]

end Truncated

/-- A complete file is accepted, and one that is cut before the end of the last
tensor is rejected, whatever the cut goes through. -/
theorem check_complete_or_cut (g : Gguf) {file : File}
    (hfile : file.bytes = g.encode) (build : Build) (path : String) :
    check build path (some file) = .accepts ∧
      ∀ cut : File, cut.bytes <+: file.bytes →
        cut.bytes.length < g.dataEnd →
          ∃ problem, check build path (some cut) = .rejects problem := by
  refine ⟨check_of_encode hfile build path, ?_⟩
  intro cut hbegins hshort
  have hlength := file.length_le.trans_lt file.maxPos_lt
  -- The largest file system has every cut file on it.
  let whole : File := ⟨file.bytes, 2 ^ 63 - 1, by omega, by omega⟩
  have hwhole : Cut whole cut := by
    have hmax := cut.maxPos_lt
    exact ⟨hbegins, by show cut.maxPos ≤ 2 ^ 63 - 1; omega⟩
  have hencode : whole.bytes = g.encode := hfile
  have hsound : Sound build cut :=
    sound_of_countable (fun _ => countable_of_cut hencode hwhole) build
  rcases hcheck : check build path (some cut) with _ | problem | _
  · exact absurd hcheck (hsound path).1
  · exact ⟨problem, rfl⟩
  · have hle := dataEnd_le_of_accepts hencode hwhole hcheck
    omega

/-- A list of a list of one string and an empty list of numbers. -/
def nestedList : Value :=
  .array arrayType
    [.array stringType [.string ⟨[97], by decide⟩], .array 0 []]

theorem wellFormed_nestedList : nestedList.WellFormed := by
  refine .array (by decide) (by decide) (by simp [Value.kind]) ?_
  simp only [List.forall_mem_cons]
  refine ⟨.array (by decide) (by decide) (by simp [Value.kind]) ?_,
    .array (by decide) (by decide) (by simp) (by simp), by simp⟩
  simp only [List.forall_mem_cons]
  exact ⟨.string _, by simp⟩

/-- Three floats behind an alignment of 16 bytes and a nested list. -/
def threeFloats : Gguf where
  version := 3
  entries :=
    [⟨⟨alignmentKey, by decide⟩, .scalar 4 [16, 0, 0, 0], .scalar rfl⟩,
      ⟨⟨[116, 97, 103, 115], by decide⟩, nestedList, wellFormed_nestedList⟩]
  tensors :=
    [{ name := ⟨[119], by decide⟩
       dims := [3]
       kind := 0
       offset := 0
       rank_lt := by decide
       dims_lt := by decide
       offset_lt := by decide
       known := rfl
       elements_lt := by decide
       size_lt := by decide }]
  version_lt := by decide
  entries_lt := by decide
  tensors_lt := by decide
  padding := List.replicate 9 0
  data := List.replicate 12 0
  length_padding := by decide +kernel
  holds := by decide

theorem check_threeFloats :
    ∃ file : File, file.bytes = threeFloats.encode ∧
      check .release "m.gguf" (some file) = .accepts ∧
      ∀ cut : File, cut.bytes <+: file.bytes → cut.bytes.length < 172 →
        ∃ problem, check .release "m.gguf" (some cut) = .rejects problem := by
  have hend : threeFloats.dataEnd = 172 := by decide +kernel
  rw [← hend]
  exact ⟨⟨threeFloats.encode, 2 ^ 63 - 1, by decide +kernel, by decide⟩, rfl,
    check_complete_or_cut threeFloats rfl .release "m.gguf"⟩

end AssistantHub.GgufFiles
