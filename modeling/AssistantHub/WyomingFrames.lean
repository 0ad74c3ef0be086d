import AssistantHub.CompactJson
import AssistantHub.Fallible
import AssistantHub.JsonValue
import AssistantHub.LittleEndian
import AssistantHub.SortedMaps
import Mathlib.Data.String.Basic

namespace AssistantHub.WyomingFrames

open AssistantHub.CompactJson
open AssistantHub.Fallible
open AssistantHub.JsonValue
open AssistantHub.LittleEndian
open AssistantHub.SortedMaps

abbrev JsonMap := SortedMap String Value

/-- `serde_json::to_vec` and `serde_json::from_slice`. -/
structure SerdeJson where
  toVec : Value → Bytes
  fromSlice : Bytes → Option Value

def newline : UInt8 := 10

/-- The compact text of a value is one line and parses back to the value, also
with the newline that ends a header. -/
structure SerdeJson.RoundTrips (json : SerdeJson) (value : Value) : Prop where
  ne_nil : json.toVec value ≠ []
  one_line : newline ∉ json.toVec value
  parses : json.fromSlice (json.toVec value) = some value
  parses_line : json.fromSlice (json.toVec value ++ [newline]) = some value

/-- Wyoming library version that the events claim. -/
def version : String := "1.10.2"

def maxHeader : Nat := 64 * 1024

def maxData : Nat := 1024 * 1024

def maxPayload : Nat := 16 * 1024 * 1024

structure Event where
  kind : String
  data : JsonMap
  payload : Option Bytes

/-- The fields of an object, and none of any other value. -/
def fieldsOf : Value → JsonMap
  | .object fields => .ofList fields
  | _ => .empty

def Event.new (kind : String) (data : Value) : Event := ⟨kind, fieldsOf data, none⟩

def Event.withPayload (e : Event) (payload : Bytes) : Event :=
  { e with payload := some payload }

def number (n : Nat) : Value := .number (.posInt (UInt64.ofNat n))

def length (header : Value) (key : String) (max : Nat) : Except String Nat :=
  match header.get key with
  | none | some .null => .ok 0
  | some v =>
      match v.asU64 with
      | none => .error s!"bad {key}"
      | some n =>
          if n.toNat > max then .error s!"{key} {n.toNat} is larger than {max}"
          else .ok n.toNat

/-- `read_until(b'\n')` -/
def untilNewline : Bytes → Bytes
  | [] => []
  | b :: rest => if b = newline then [b] else b :: untilNewline rest

def readExact (n : Nat) (input : Bytes) : Except String (Bytes × Bytes) :=
  if n ≤ input.length then .ok (input.take n, input.drop n)
  else .error "early eof"

/-- The separate data object overrides the inline one. Other JSON there is
ignored. -/
def extendData (json : SerdeJson) (data : JsonMap) (bytes : Bytes) :
    Except String JsonMap :=
  if bytes = [] then .ok data
  else do
    let extra ← context "bad Wyoming data" (json.fromSlice bytes)
    return data.extend (fieldsOf extra).entries

/-- Reads one event, and returns it with the bytes after it. -/
def readEvent (json : SerdeJson) (input : Bytes) :
    Except String (Option (Event × Bytes)) :=
  let line := untilNewline (input.take (maxHeader + 1))
  if line = [] then .ok none
  else if line.length > maxHeader then .error "Wyoming header line too long"
  else do
    let header ← context "bad Wyoming header" (json.fromSlice line)
    let kind ← context "Wyoming header without type" (header.index "type").asStr
    let inline := fieldsOf (header.index "data")
    let dataLen ← length header "data_length" maxData
    let (bytes, rest) ← readExact dataLen (input.drop line.length)
    let data ← extendData json inline bytes
    let payloadLen ← length header "payload_length" maxPayload
    let (payload, rest) ← readExact payloadLen rest
    return some (⟨kind, data, if payload = [] then none else some payload⟩, rest)

def dataBytes (json : SerdeJson) (e : Event) : Option Bytes :=
  if e.data.entries = [] then none else some (json.toVec (.object e.data.entries))

def header (json : SerdeJson) (e : Event) : Value :=
  let start : JsonMap :=
    .ofList [("type", .string e.kind), ("version", .string version)]
  let sized :=
    match dataBytes json e with
    | some bytes => start.insert "data_length" (number bytes.length)
    | none => start
  let sized :=
    match e.payload with
    | some payload => sized.insert "payload_length" (number payload.length)
    | none => sized
  .object sized.entries

def headerLine (json : SerdeJson) (e : Event) : Bytes :=
  json.toVec (header json e) ++ [newline]

def writeEvent (json : SerdeJson) (e : Event) : Bytes :=
  headerLine json e ++ (dataBytes json e).getD [] ++ e.payload.getD []

def writeEvents (json : SerdeJson) (events : List Event) : Bytes :=
  events.flatMap (writeEvent json)

/-- Reading one event after the other until the peer has closed. -/
inductive Reads (json : SerdeJson) : Bytes → List Event → Prop where
  | closed {input : Bytes} : readEvent json input = .ok none → Reads json input []
  | next {input rest : Bytes} {e : Event} {events : List Event} :
      readEvent json input = .ok (some (e, rest)) → Reads json rest events →
      Reads json input (e :: events)

section Lines

theorem untilNewline_append {text : Bytes} (h : newline ∉ text) (rest : Bytes) :
    untilNewline (text ++ newline :: rest) = text ++ [newline] := by
  induction text with
  | nil => rfl
  | cons b text ih =>
      rw [List.mem_cons, not_or] at h
      rw [List.cons_append, untilNewline, if_neg (Ne.symm h.1), ih h.2]
      rfl

theorem prefix_untilNewline (input : Bytes) : untilNewline input <+: input := by
  induction input with
  | nil => exact List.prefix_refl _
  | cons b input ih =>
      rw [untilNewline]
      split
      · exact ⟨input, rfl⟩
      · exact (List.prefix_cons_inj b).mpr ih

/-- A line that does not fill the window is a line of the whole stream. -/
theorem untilNewline_take {input : Bytes} {n : Nat}
    (h : (untilNewline (input.take n)).length < n) :
    untilNewline (input.take n) = untilNewline input := by
  induction input generalizing n with
  | nil => rw [List.take_nil]
  | cons b input ih =>
      cases n with
      | zero => omega
      | succ n =>
          rw [List.take_succ_cons, untilNewline] at h ⊢
          rw [untilNewline]
          split
          · rfl
          · rename_i hb
            rw [if_neg hb, List.length_cons] at h
            rw [ih (by omega)]

theorem readExact_eq_ok {n : Nat} {input bytes rest : Bytes} :
    readExact n input = .ok (bytes, rest) ↔
      input = bytes ++ rest ∧ bytes.length = n := by
  rw [readExact]
  split
  · rename_i hle
    rw [Except.ok.injEq, Prod.mk.injEq]
    constructor
    · rintro ⟨rfl, rfl⟩
      exact ⟨(List.take_append_drop n input).symm, List.length_take_of_le hle⟩
    · rintro ⟨rfl, rfl⟩
      exact ⟨List.take_left, List.drop_left⟩
  · rename_i hlt
    constructor
    · exact nofun
    · rintro ⟨rfl, rfl⟩
      rw [List.length_append] at hlt
      omega

end Lines

/-- What a successful read has consumed, and what it has made of it. -/
structure Framed (json : SerdeJson) (input : Bytes) (e : Event) (rest : Bytes) :
    Prop where
  consumes : ∃ header bytes payload,
    input = untilNewline input ++ bytes ++ payload ++ rest ∧
    json.fromSlice (untilNewline input) = some header ∧
    length header "data_length" maxData = .ok bytes.length ∧
    length header "payload_length" maxPayload = .ok payload.length ∧
    (header.index "type").asStr = some e.kind ∧
    e.payload = (if payload = [] then none else some payload) ∧
    ∃ extra, (bytes = [] ∧ extra = .null ∨ json.fromSlice bytes = some extra) ∧
      ∀ key, e.data.lookup key =
        ((fieldsOf extra).lookup key).or
          ((fieldsOf (header.index "data")).lookup key)

section Reading

variable {json : SerdeJson}

theorem lookup_extendData {data data' : JsonMap} {bytes : Bytes}
    (h : extendData json data bytes = .ok data') :
    ∃ extra, (bytes = [] ∧ extra = .null ∨ json.fromSlice bytes = some extra) ∧
      ∀ key, data'.lookup key = ((fieldsOf extra).lookup key).or (data.lookup key) := by
  rw [extendData] at h
  split at h
  · rename_i hnil
    obtain rfl := Except.ok.inj h
    exact ⟨.null, Or.inl ⟨hnil, rfl⟩, fun _ => rfl⟩
  · obtain ⟨extra, hextra, h⟩ := bind_eq_ok.mp h
    obtain rfl := Except.ok.inj h
    refine ⟨extra, Or.inr (context_eq_ok.mp hextra), ?_⟩
    exact SortedMap.lookup_extend data (fieldsOf extra)

theorem framed_of_readEvent {input rest : Bytes} {e : Event}
    (h : readEvent json input = .ok (some (e, rest))) :
    Framed json input e rest := by
  rw [readEvent] at h
  split at h
  · cases h
  · split at h
    · cases h
    · rename_i hshort
      have hlong : (untilNewline (input.take (maxHeader + 1))).length <
          maxHeader + 1 := by omega
      rw [untilNewline_take hlong] at h
      obtain ⟨header, hheader, h⟩ := bind_eq_ok.mp h
      obtain ⟨kind, hkind, h⟩ := bind_eq_ok.mp h
      obtain ⟨dataLen, hdataLen, h⟩ := bind_eq_ok.mp h
      obtain ⟨⟨bytes, afterData⟩, hbytes, h⟩ := bind_eq_ok.mp h
      obtain ⟨data, hdata, h⟩ := bind_eq_ok.mp h
      obtain ⟨payloadLen, hpayloadLen, h⟩ := bind_eq_ok.mp h
      obtain ⟨⟨payload, afterPayload⟩, hpayload, hread⟩ := bind_eq_ok.mp h
      obtain ⟨rfl, rfl⟩ := Prod.mk.inj (Option.some.inj (Except.ok.inj hread))
      obtain ⟨hdrop, rfl⟩ := readExact_eq_ok.mp hbytes
      obtain ⟨hafter, rfl⟩ := readExact_eq_ok.mp hpayload
      refine ⟨header, bytes, payload, ?_, context_eq_ok.mp hheader, hdataLen,
        hpayloadLen, context_eq_ok.mp hkind, rfl, lookup_extendData hdata⟩
      have hstarts := List.prefix_iff_eq_append.mp (prefix_untilNewline input)
      rw [List.append_assoc, List.append_assoc, ← hafter, ← hdrop]
      exact hstarts.symm

end Reading

/-- An event within the limits of the reader. -/
structure Fits (json : SerdeJson) (e : Event) : Prop where
  header_le : (headerLine json e).length ≤ maxHeader
  data_le : ((dataBytes json e).getD []).length ≤ maxData
  payload_le : ∀ payload, e.payload = some payload →
    payload ≠ [] ∧ payload.length ≤ maxPayload

section Writing

variable {json : SerdeJson} {e : Event}

theorem untilNewline_headerLine (hjson : json.RoundTrips (header json e))
    (hfits : Fits json e) (rest : Bytes) :
    untilNewline ((headerLine json e ++ rest).take (maxHeader + 1)) =
      headerLine json e := by
  have hle := hfits.header_le
  rw [List.take_append, List.take_of_length_le (by omega), headerLine,
    List.append_assoc]
  exact untilNewline_append hjson.one_line _

theorem index_type_header : ((header json e).index "type").asStr = some e.kind := by
  change (((SortedMap.lookup _ "type").getD .null) : Value).asStr = some e.kind
  cases dataBytes json e <;> cases e.payload <;>
    simp [SortedMap.ofList, SortedMap.extend, Value.asStr]

theorem index_data_header :
    fieldsOf ((header json e).index "data") = SortedMap.empty := by
  change fieldsOf ((SortedMap.lookup _ "data").getD .null) = _
  cases dataBytes json e <;> cases e.payload <;>
    simp [SortedMap.ofList, SortedMap.extend, fieldsOf]

theorem length_of_number {value : Value} {key : String} {max n : Nat}
    (h : value.get key = some (number n)) (hle : n ≤ max) (hmax : max < 2 ^ 64) :
    length value key max = .ok n := by
  have hn : (UInt64.ofNat n).toNat = n := UInt64.toNat_ofNat_of_lt' (lt_of_le_of_lt hle hmax)
  rw [length.eq_def, h]
  simp [number, Value.asU64, hn, hle]

theorem length_of_none {value : Value} {key : String} {max : Nat}
    (h : value.get key = none) : length value key max = .ok 0 := by
  rw [length.eq_def, h]

theorem length_data_header (hfits : Fits json e) :
    length (header json e) "data_length" maxData =
      .ok ((dataBytes json e).getD []).length := by
  have hle := hfits.data_le
  cases hdata : dataBytes json e with
  | none =>
      apply length_of_none
      change SortedMap.lookup _ "data_length" = none
      rw [hdata]
      cases e.payload <;> simp [SortedMap.ofList, SortedMap.extend]
  | some bytes =>
      rw [hdata] at hle
      apply length_of_number _ hle (by decide)
      change SortedMap.lookup _ "data_length" = some _
      rw [hdata]
      cases e.payload <;> simp

theorem length_payload_header (hfits : Fits json e) :
    length (header json e) "payload_length" maxPayload =
      .ok (e.payload.getD []).length := by
  cases hpayload : e.payload with
  | none =>
      apply length_of_none
      change SortedMap.lookup _ "payload_length" = none
      rw [hpayload]
      cases dataBytes json e <;> simp [SortedMap.ofList, SortedMap.extend]
  | some payload =>
      apply length_of_number _ (hfits.payload_le payload hpayload).2 (by decide)
      change SortedMap.lookup _ "payload_length" = some _
      rw [hpayload]
      simp

theorem fieldsOf_object (m : JsonMap) : fieldsOf (.object m.entries) = m :=
  SortedMap.ofList_entries m

theorem extendData_dataBytes (hjson : json.RoundTrips (.object e.data.entries)) :
    extendData json .empty ((dataBytes json e).getD []) = .ok e.data := by
  rw [dataBytes]
  split
  · rename_i hnil
    have hempty : e.data = .empty := SortedMap.ext fun key => by
      rw [SortedMap.lookup, hnil]
      rfl
    rw [hempty]
    rfl
  · rw [Option.getD_some, extendData, if_neg hjson.ne_nil]
    apply bind_eq_ok.mpr
    refine ⟨_, context_eq_ok.mpr hjson.parses, ?_⟩
    rw [fieldsOf_object]
    exact congrArg Except.ok (SortedMap.ofList_entries e.data)

theorem readEvent_writeEvent (hheader : json.RoundTrips (header json e))
    (hdata : json.RoundTrips (.object e.data.entries)) (hfits : Fits json e)
    (rest : Bytes) :
    readEvent json (writeEvent json e ++ rest) = .ok (some (e, rest)) := by
  have hle := hfits.header_le
  have hne : headerLine json e ≠ [] := by simp [headerLine]
  rw [writeEvent, List.append_assoc, List.append_assoc, readEvent,
    untilNewline_headerLine hheader hfits, if_neg hne, if_neg (by omega)]
  refine bind_eq_ok.mpr ⟨_, context_eq_ok.mpr hheader.parses_line, ?_⟩
  refine bind_eq_ok.mpr ⟨_, context_eq_ok.mpr index_type_header, ?_⟩
  refine bind_eq_ok.mpr ⟨_, length_data_header hfits, ?_⟩
  refine bind_eq_ok.mpr ⟨_, readExact_eq_ok.mpr ⟨List.drop_left, rfl⟩, ?_⟩
  rw [index_data_header]
  refine bind_eq_ok.mpr ⟨_, extendData_dataBytes hdata, ?_⟩
  refine bind_eq_ok.mpr ⟨_, length_payload_header hfits, ?_⟩
  refine bind_eq_ok.mpr ⟨(e.payload.getD [], rest), readExact_eq_ok.mpr ⟨rfl, rfl⟩, ?_⟩
  have hpayload : (if e.payload.getD [] = [] then none else some (e.payload.getD [])) =
      e.payload := by
    cases hsome : e.payload with
    | none => rfl
    | some payload => exact if_neg (hfits.payload_le payload hsome).1
  simp only [hpayload]
  rfl

end Writing

/-- The reader gets back every stream of events that fit. Whatever it reads, it
consumes the header line and as many bytes as that declares. -/
theorem reads_writeEvents (json : SerdeJson) (events : List Event)
    (hjson : ∀ e ∈ events, json.RoundTrips (header json e) ∧
      json.RoundTrips (.object e.data.entries))
    (hfits : ∀ e ∈ events, Fits json e) :
    Reads json (writeEvents json events) events ∧
      ∀ input e rest, readEvent json input = .ok (some (e, rest)) →
        Framed json input e rest := by
  refine ⟨?_, fun input e rest => framed_of_readEvent⟩
  induction events with
  | nil => exact Reads.closed rfl
  | cons e events ih =>
      obtain ⟨hheader, hdata⟩ := hjson e List.mem_cons_self
      refine Reads.next (readEvent_writeEvent hheader hdata
        (hfits e List.mem_cons_self) (writeEvents json events)) ?_
      exact ih (fun e' he' => hjson e' (List.mem_cons_of_mem e he'))
        (fun e' he' => hfits e' (List.mem_cons_of_mem e he'))

mutual

/-- The compact text of a value without floats. -/
def compact : Value → List Char
  | .null => text "null"
  | .bool b => if b then text "true" else text "false"
  | .number (.posInt n) => Nat.toDigits 10 n.toNat
  | .number (.negInt n) => '-' :: Nat.toDigits 10 n.toInt.natAbs
  | .number (.float _) => []
  | .string s => quote s
  | .array values => '[' :: compactValues values ++ [']']
  | .object fields => Char.ofNat 123 :: compactFields fields ++ [Char.ofNat 125]

def compactValues : List Value → List Char
  | [] => []
  | [value] => compact value
  | value :: values => compact value ++ ',' :: compactValues values

def compactFields : List (String × Value) → List Char
  | [] => []
  | [(key, value)] => quote key ++ ':' :: compact value
  | (key, value) :: fields =>
      quote key ++ ':' :: compact value ++ ',' :: compactFields fields

end

/-- Prints every value, and reads the text of the listed ones. -/
def serdeFor (values : List Value) : SerdeJson :=
  let toVec := fun value => (compact value).flatMap String.utf8EncodeChar
  { toVec := toVec
    fromSlice := fun bytes => values.find? fun value =>
      toVec value = bytes || toVec value ++ [newline] = bytes }

def audioChunk : Event :=
  (Event.new "audio-chunk"
    (.object [("rate", number 16000), ("width", number 2)])).withPayload
    [10, 123, 125, 0]

def describe : Event := Event.new "describe" .null

def serde : SerdeJson :=
  serdeFor ([audioChunk, describe].flatMap fun e =>
    [header (serdeFor []) e, .object e.data.entries])

theorem roundTrips_serde :
    ∀ e ∈ [audioChunk, describe], serde.RoundTrips (header serde e) ∧
      serde.RoundTrips (.object e.data.entries) := by
  intro e he
  rcases List.mem_cons.mp he with rfl | he
  · exact ⟨⟨by decide, by decide, rfl, rfl⟩, ⟨by decide, by decide, rfl, rfl⟩⟩
  · obtain rfl := List.mem_singleton.mp he
    exact ⟨⟨by decide, by decide, rfl, rfl⟩, ⟨by decide, by decide, rfl, rfl⟩⟩

theorem fits_audioChunk : Fits serde audioChunk where
  header_le := by decide
  data_le := by decide
  payload_le := by
    intro payload hpayload
    obtain rfl := Option.some.inj hpayload
    decide

theorem fits_describe : Fits serde describe where
  header_le := by decide
  data_le := by decide
  payload_le := nofun

theorem reads_writeEvents_audioChunk :
    Reads serde (writeEvents serde [audioChunk, describe]) [audioChunk, describe] :=
  (reads_writeEvents serde [audioChunk, describe] roundTrips_serde
    (by simp [fits_audioChunk, fits_describe])).1

end AssistantHub.WyomingFrames
