import AssistantHub.LittleEndian

namespace AssistantHub.LossyText

open AssistantHub.LittleEndian

/-- A text in UTF-8. -/
def utf8 (text : List Char) : Bytes := text.flatMap String.utf8EncodeChar

def decodeChar (bytes : Bytes) : Option Char :=
  bytes.toByteArray.utf8DecodeChar? 0

/-- A missing byte reads as zero, which continues nothing. -/
def continues (bytes : Bytes) (i : Nat) : Bool :=
  bytes.getD i 0 &&& 192 = 128

def secondByteOk (bytes : Bytes) : Bool :=
  let first := bytes.getD 0 0
  let second := bytes.getD 1 0
  if first = 0xE0 then 0xA0 ≤ second ∧ second ≤ 0xBF
  else if first = 0xED then 0x80 ≤ second ∧ second ≤ 0x9F
  else if first = 0xF0 then 0x90 ≤ second ∧ second ≤ 0xBF
  else if first = 0xF4 then 0x80 ≤ second ∧ second ≤ 0x8F
  else continues bytes 1

/-- How many bytes at the front one replacement character stands for, where no
character is encoded there. -/
def invalidLength (bytes : Bytes) : Nat :=
  let first := bytes.getD 0 0
  if 0xE0 ≤ first ∧ first ≤ 0xF4 ∧ secondByteOk bytes then
    if 0xF0 ≤ first ∧ continues bytes 2 then 3 else 2
  else 1

/-- `from_utf8_lossy`, behind `skipped` more bytes. -/
def fromUtf8LossyAfter : Nat → Bytes → List Char
  | _, [] => []
  | skipped + 1, _ :: bytes => fromUtf8LossyAfter skipped bytes
  | 0, b :: bytes =>
      match decodeChar (b :: bytes) with
      | some c => c :: fromUtf8LossyAfter (c.utf8Size - 1) bytes
      | none =>
          Char.ofNat 0xFFFD :: fromUtf8LossyAfter (invalidLength (b :: bytes) - 1) bytes

def fromUtf8Lossy (bytes : Bytes) : String :=
  String.ofList (fromUtf8LossyAfter 0 bytes)

theorem decodeChar_append (c : Char) (bytes : Bytes) :
    decodeChar (String.utf8EncodeChar c ++ bytes) = some c := by
  rw [decodeChar, List.toByteArray_append]
  exact ByteArray.utf8DecodeChar?_utf8EncodeChar_append

theorem fromUtf8LossyAfter_append (skipped bytes : Bytes) :
    fromUtf8LossyAfter skipped.length (skipped ++ bytes) =
      fromUtf8LossyAfter 0 bytes := by
  induction skipped with
  | nil => rfl
  | cons b skipped ih => exact ih

theorem fromUtf8LossyAfter_utf8 (text : List Char) :
    fromUtf8LossyAfter 0 (utf8 text) = text := by
  induction text with
  | nil => rfl
  | cons c text ih =>
      have hlength := String.length_utf8EncodeChar c
      have hdecode := decodeChar_append c (utf8 text)
      rw [utf8, List.flatMap_cons, ← utf8]
      rcases hbytes : String.utf8EncodeChar c with _ | ⟨b, rest⟩
      · rw [hbytes, List.length_nil] at hlength
        exact absurd hlength.symm (Nat.ne_of_gt c.utf8Size_pos)
      · rw [hbytes, List.length_cons] at hlength
        rw [hbytes, List.cons_append] at hdecode
        rw [List.cons_append, fromUtf8LossyAfter, hdecode]
        show c :: fromUtf8LossyAfter (c.utf8Size - 1) (rest ++ utf8 text) = _
        rw [← hlength, Nat.add_sub_cancel, fromUtf8LossyAfter_append, ih]

/-- What is UTF-8 is not changed. -/
theorem fromUtf8Lossy_utf8 (s : String) : fromUtf8Lossy (utf8 s.toList) = s := by
  rw [fromUtf8Lossy, fromUtf8LossyAfter_utf8, String.ofList_toList]

theorem utf8_injective {text other : List Char} (h : utf8 text = utf8 other) :
    text = other := by
  rw [← fromUtf8LossyAfter_utf8 text, h, fromUtf8LossyAfter_utf8]

theorem utf8_inj {text other : List Char} : utf8 text = utf8 other ↔ text = other :=
  ⟨utf8_injective, congrArg utf8⟩

/-- `to_str` of a name: the text, if the bytes are UTF-8. -/
def toStr (name : Bytes) : Option (List Char) :=
  let text := fromUtf8LossyAfter 0 name
  if utf8 text = name then some text else none

theorem toStr_eq_some {name : Bytes} {text : List Char} :
    toStr name = some text ↔ utf8 text = name := by
  simp only [toStr, Option.ite_none_right_eq_some, Option.some.injEq]
  constructor
  · rintro ⟨hname, rfl⟩
    exact hname
  · rintro rfl
    rw [fromUtf8LossyAfter_utf8]
    exact ⟨rfl, rfl⟩

@[simp] theorem toStr_utf8 (text : List Char) : toStr (utf8 text) = some text :=
  toStr_eq_some.mpr rfl

theorem utf8_append (text other : List Char) :
    utf8 (text ++ other) = utf8 text ++ utf8 other :=
  List.flatMap_append

example : fromUtf8Lossy [97, 0xE2, 0x82, 98, 0xFF] =
    String.ofList ['a', Char.ofNat 0xFFFD, 'b', Char.ofNat 0xFFFD] := by
  decide +kernel

end AssistantHub.LossyText
