import AssistantHub.CompactJson
import AssistantHub.IndexStore

namespace AssistantHub.HeaderEncoding

open AssistantHub.CompactJson
open AssistantHub.IndexStore

structure Header where
  fingerprint : String
  dims : Nat
  entries : List Entry
  deriving DecidableEq

/-- `serde_json::to_vec` and `serde_json::from_slice` at the type `Header`: an
encoding of headers that reads back. -/
structure HeaderJson where
  toVec : Header → List UInt8
  fromSlice : List UInt8 → Option Header
  fromSlice_toVec : ∀ header, fromSlice (toVec header) = some header

def kindName : Kind → String
  | .series => "Series"
  | .movie => "Movie"
  | .episode => "Episode"

theorem fromJellyfin_kindName (kind : Kind) :
    Kind.fromJellyfin (kindName kind) = some kind := by
  cases kind <;> decide

/-- An optional field of an entry, left out when there is none. -/
def optionalField (literal : String) : Option String → List Char
  | none => []
  | some s => text literal ++ quote s

def printEntry (e : Entry) : List Char :=
  text "\x7b\"id\":" ++ quote e.id ++
    (text ",\"kind\":" ++ quote (kindName e.kind) ++
      (text ",\"name\":" ++ quote e.name ++
        (optionalField ",\"series_id\":" e.seriesId ++
          (optionalField ",\"series_name\":" e.seriesName ++
            (text ",\"hash\":" ++ (Nat.toDigits 10 e.hash.toNat ++
              text "\x7d"))))))

/-- The elements of the array, each but the first after a comma. -/
def printEntries : List Entry → List Char
  | [] => text "]"
  | e :: entries => text "," ++ (printEntry e ++ printEntries entries)

def printArray : List Entry → List Char
  | [] => text "]"
  | e :: entries => printEntry e ++ printEntries entries

def printHeader (header : Header) : List Char :=
  text "\x7b\"fingerprint\":" ++ (quote header.fingerprint ++
    (text ",\"dims\":" ++ (Nat.toDigits 10 header.dims ++
      (text ",\"entries\":[" ++
        (printArray header.entries ++ text "\x7d")))))

def readOptionalField (literal : String) (input : List Char) :
    Option (Option String × List Char) :=
  match readLiteral literal input with
  | none => some (none, input)
  | some input => (readString input).map fun p => (some p.1, p.2)

def readEntry (input : List Char) : Option (Entry × List Char) := do
  let input ← readLiteral "\x7b\"id\":" input
  let (id, input) ← readString input
  let input ← readLiteral ",\"kind\":" input
  let (kind, input) ← readString input
  let kind ← Kind.fromJellyfin kind
  let input ← readLiteral ",\"name\":" input
  let (name, input) ← readString input
  let (seriesId, input) ← readOptionalField ",\"series_id\":" input
  let (seriesName, input) ← readOptionalField ",\"series_name\":" input
  let input ← readLiteral ",\"hash\":" input
  let (hash, input) := readNat input
  let input ← readLiteral "\x7d" input
  some (⟨id, kind, name, seriesId, seriesName, UInt64.ofNat hash⟩, input)

/-- Read the further elements of the array; every element takes a unit of fuel. -/
def readEntries : Nat → List Char → Option (List Entry × List Char)
  | 0, _ => none
  | fuel + 1, input =>
      match readLiteral "]" input with
      | some input => some ([], input)
      | none => do
          let input ← readLiteral "," input
          let (e, input) ← readEntry input
          let (entries, input) ← readEntries fuel input
          some (e :: entries, input)

def readHeaderWith (fuel : Nat) (input : List Char) : Option Header := do
  let input ← readLiteral "\x7b\"fingerprint\":" input
  let (fingerprint, input) ← readString input
  let input ← readLiteral ",\"dims\":" input
  let (dims, input) := readNat input
  let input ← readLiteral ",\"entries\":[" input
  match readLiteral "]" input with
  | some _ => some ⟨fingerprint, dims, []⟩
  | none =>
      let (e, input) ← readEntry input
      let (entries, _) ← readEntries fuel input
      some ⟨fingerprint, dims, e :: entries⟩

def readHeader (input : List Char) : Option Header :=
  readHeaderWith input.length input

theorem readOptionalField_append {literal : String} {field : Option String}
    {rest : List Char}
    (hrest : field = none → readLiteral literal rest = none) :
    readOptionalField literal (optionalField literal field ++ rest) =
      some (field, rest) := by
  cases field with
  | none => simp [readOptionalField, optionalField, hrest]
  | some s =>
      simp only [readOptionalField, optionalField, List.append_assoc,
        readLiteral_append, readString_quote, Option.map_some]

theorem readLiteral_series_id_of (name : Option String) (rest : List Char) :
    readLiteral ",\"series_id\":"
      (optionalField ",\"series_name\":" name ++
        (text ",\"hash\":" ++ rest)) = none := by
  cases name with
  | none => simp [readLiteral, text, optionalField]
  | some s => simp [readLiteral, text, optionalField]

theorem readEntry_printEntry (e : Entry) (rest : List Char) :
    readEntry (printEntry e ++ rest) = some (e, rest) := by
  have hnat : ∀ tail, readNat (Nat.toDigits 10 e.hash.toNat ++
      (text "\x7d" ++ tail)) = (e.hash.toNat, text "\x7d" ++ tail) :=
    fun tail => readNat_toDigits _ (by simp [text])
  simp only [readEntry, printEntry, List.append_assoc, readLiteral_append,
    Option.bind_eq_bind, Option.bind_some, readString_quote,
    fromJellyfin_kindName]
  rw [readOptionalField_append fun _ => readLiteral_series_id_of _ _]
  simp only [Option.bind_some]
  rw [readOptionalField_append fun _ => by simp [readLiteral, text]]
  simp only [Option.bind_some, readLiteral_append, hnat, UInt64.ofNat_toNat]

theorem readEntries_printEntries {fuel : Nat} {entries : List Entry}
    (hfuel : entries.length < fuel) (rest : List Char) :
    readEntries fuel (printEntries entries ++ rest) = some (entries, rest) := by
  induction entries generalizing fuel with
  | nil =>
      cases fuel with
      | zero => simp at hfuel
      | succ fuel =>
          rw [printEntries, readEntries, readLiteral_append]
  | cons e entries ih =>
      cases fuel with
      | zero => simp at hfuel
      | succ fuel =>
          have hclose : ∀ tail, readLiteral "]" (text "," ++ tail) = none := by
            intro tail
            simp [readLiteral, text]
          simp only [printEntries, readEntries, List.append_assoc, hclose,
            readLiteral_append, Option.bind_eq_bind, Option.bind_some,
            readEntry_printEntry, ih (Nat.lt_of_succ_lt_succ hfuel)]

theorem length_le_printEntries (entries : List Entry) :
    entries.length < (printEntries entries).length := by
  induction entries with
  | nil => simp [printEntries, text]
  | cons e entries ih =>
      simp only [printEntries, List.length_append, List.length_cons]
      have hcomma : (text ",").length = 1 := by simp [text]
      omega

theorem readHeaderWith_printHeader {header : Header} {fuel : Nat}
    (hfuel : header.entries.length ≤ fuel) :
    readHeaderWith fuel (printHeader header) = some header := by
  obtain ⟨fingerprint, dims, entries⟩ := header
  have hnat : ∀ tail, readNat (Nat.toDigits 10 dims ++
      (text ",\"entries\":[" ++ tail)) = (dims, text ",\"entries\":[" ++ tail) :=
    fun tail => readNat_toDigits _ (by simp [text])
  simp only [readHeaderWith, printHeader, readLiteral_append,
    Option.bind_eq_bind, Option.bind_some, readString_quote, hnat]
  cases entries with
  | nil => rw [printArray, readLiteral_append]
  | cons e entries =>
      have hopen : ∀ tail, readLiteral "]" (printEntry e ++ tail) = none := by
        intro tail
        simp [readLiteral, text, printEntry]
      rw [printArray, List.append_assoc, hopen]
      simp only [readEntry_printEntry, Option.bind_some,
        readEntries_printEntries (Nat.lt_of_succ_le hfuel)]

theorem length_entries_le_printHeader (header : Header) :
    header.entries.length ≤ (printHeader header).length := by
  have harray : header.entries.length ≤ (printArray header.entries).length := by
    cases hentries : header.entries with
    | nil => simp
    | cons e entries =>
        have := length_le_printEntries entries
        simp only [printArray, List.length_append, List.length_cons]
        omega
  simp only [printHeader, List.length_append]
  omega

def compactJson : HeaderJson where
  toVec header := (String.ofList (printHeader header)).toUTF8.data.toList
  fromSlice bytes :=
    (String.fromUTF8? ⟨bytes.toArray⟩).bind fun text => readHeader text.toList
  fromSlice_toVec header := by
    have htext : ∀ text : String,
        String.fromUTF8? ⟨text.toUTF8.data.toList.toArray⟩ = some text := by
      intro text
      have hvalid : ByteArray.IsValidUTF8 ⟨text.toUTF8.data.toList.toArray⟩ :=
        text.isValidUTF8
      rw [String.fromUTF8?, dif_pos hvalid]
      rfl
    rw [htext, Option.bind_some, String.toList_ofList]
    exact readHeaderWith_printHeader (length_entries_le_printHeader header)

end AssistantHub.HeaderEncoding
