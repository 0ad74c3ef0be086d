import Mathlib.Data.List.Basic

namespace AssistantHub.CompactJson

def quoteMark : Char := Char.ofNat 34

def backslash : Char := Char.ofNat 92

/-- The short escapes of JSON: the character and the letter that stands for it. -/
def shortEscapes : List (Char × Char) :=
  [(quoteMark, quoteMark), (backslash, backslash), (Char.ofNat 8, 'b'),
    (Char.ofNat 12, 'f'), (Char.ofNat 10, 'n'), (Char.ofNat 13, 'r'),
    (Char.ofNat 9, 't')]

/-- A character inside a string literal, as a compact printer writes it: the
short escapes, four hexadecimal digits for the other control characters, and
every other character as it is. -/
def escape (c : Char) : List Char :=
  match shortEscapes.lookup c with
  | some letter => [backslash, letter]
  | none =>
      if c.toNat < 32 then
        [backslash, 'u', '0', '0', Nat.digitChar (c.toNat / 16),
          Nat.digitChar (c.toNat % 16)]
      else [c]

def quote (s : String) : List Char :=
  quoteMark :: (s.toList.flatMap escape ++ [quoteMark])

def hexValue (c : Char) : Nat :=
  if c.isDigit then c.toNat - 48 else c.toNat - 87

def unescape (letter : Char) : Option Char :=
  (shortEscapes.find? fun p => p.2 = letter).map Prod.fst

def readChars : List Char → Option (List Char × List Char)
  | [] => none
  | c :: rest =>
      if c = quoteMark then some ([], rest)
      else if c = backslash then
        match rest with
        | 'u' :: _ :: _ :: hi :: lo :: rest =>
            (readChars rest).map fun p =>
              (Char.ofNat (16 * hexValue hi + hexValue lo) :: p.1, p.2)
        | letter :: rest =>
            (unescape letter).bind fun c =>
              (readChars rest).map fun p => (c :: p.1, p.2)
        | [] => none
      else (readChars rest).map fun p => (c :: p.1, p.2)

def readString : List Char → Option (String × List Char)
  | [] => none
  | c :: rest =>
      if c = quoteMark then
        (readChars rest).map fun p => (String.ofList p.1, p.2)
      else none

def readNat (input : List Char) : Nat × List Char :=
  (Nat.ofDigitChars 10 (input.takeWhile Char.isDigit) 0,
    input.dropWhile Char.isDigit)

/-- A fixed piece of text. Irreducible, so that no unifier decodes it. -/
@[irreducible] def text (literal : String) : List Char := literal.toList

def readLiteral (literal : String) (input : List Char) : Option (List Char) :=
  if (text literal).isPrefixOf input then
    some (input.drop (text literal).length)
  else none

theorem hexValue_digitChar :
    ∀ n < 16, hexValue (Nat.digitChar n) = n := by decide

theorem shortEscapes_spec :
    ∀ p ∈ shortEscapes, p.2 ≠ 'u' ∧ unescape p.2 = some p.1 := by decide

theorem lookup_shortEscapes_of_none {c : Char}
    (h : shortEscapes.lookup c = none) : c ≠ quoteMark ∧ c ≠ backslash := by
  constructor
  · rintro rfl
    exact absurd h (by decide)
  · rintro rfl
    exact absurd h (by decide)

theorem readChars_letter {letter c : Char} (hu : letter ≠ 'u')
    (hc : unescape letter = some c) (rest : List Char) :
    readChars (backslash :: letter :: rest) =
      (readChars rest).map fun p => (c :: p.1, p.2) := by
  rw [readChars.eq_def]
  simp only [show backslash ≠ quoteMark by decide, if_false, if_true]
  split
  · rename_i heq
    simp only [List.cons.injEq] at heq
    exact absurd heq.1 hu
  · rename_i heq
    simp only [List.cons.injEq] at heq
    obtain ⟨rfl, rfl⟩ := heq
    rw [hc, Option.bind_some]
  · rename_i heq
    simp at heq

theorem readChars_escape (c : Char) (rest : List Char) :
    readChars (escape c ++ rest) =
      (readChars rest).map fun p => (c :: p.1, p.2) := by
  unfold escape
  split
  · rename_i letter hlookup
    obtain ⟨l₁, l₂, hsplit, -⟩ := List.lookup_eq_some_iff.mp hlookup
    obtain ⟨hu, hc⟩ := shortEscapes_spec (c, letter) (by rw [hsplit]; simp)
    exact readChars_letter hu hc rest
  · rename_i hlookup
    obtain ⟨hquote, hback⟩ := lookup_shortEscapes_of_none hlookup
    split
    · rename_i hcontrol
      have hhi := hexValue_digitChar (c.toNat / 16) (by omega)
      have hlo := hexValue_digitChar (c.toNat % 16) (by omega)
      have hc : Char.ofNat (16 * (c.toNat / 16) + c.toNat % 16) = c := by
        rw [Nat.div_add_mod]
        exact Char.ofNat_toNat c
      simp only [List.cons_append, List.nil_append]
      rw [readChars]
      simp only [show backslash ≠ quoteMark by decide, if_false, if_true, hhi,
        hlo, hc]
    · simp only [List.cons_append, List.nil_append]
      rw [readChars.eq_def]
      simp only [hquote, hback, if_false]

theorem readChars_flatMap_escape (cs rest : List Char) :
    readChars (cs.flatMap escape ++ quoteMark :: rest) = some (cs, rest) := by
  induction cs with
  | nil =>
      rw [List.flatMap_nil, List.nil_append, readChars.eq_def]
      simp only [if_true]
  | cons c cs ih =>
      rw [List.flatMap_cons, List.append_assoc, readChars_escape, ih]
      rfl

theorem readString_quote (s : String) (rest : List Char) :
    readString (quote s ++ rest) = some (s, rest) := by
  have hchars := readChars_flatMap_escape s.toList rest
  simp only [quote, List.cons_append, List.append_assoc, List.nil_append,
    readString, if_true, hchars]
  simp

theorem readNat_toDigits (n : Nat) {rest : List Char}
    (hrest : ∀ c ∈ rest.head?, c.isDigit = false) :
    readNat (Nat.toDigits 10 n ++ rest) = (n, rest) := by
  have hdigits : ∀ d ∈ Nat.toDigits 10 n, d.isDigit = true := fun d hd =>
    Nat.isDigit_of_mem_toDigits (by decide) (by decide) hd
  rw [readNat, List.takeWhile_append_of_pos hdigits,
    List.dropWhile_append_of_pos hdigits]
  cases rest with
  | nil => simp [Nat.ofDigitChars_ten_toDigits]
  | cons c rest =>
      have hc : c.isDigit = false := hrest c (by simp)
      simp [hc, Nat.ofDigitChars_ten_toDigits]

theorem readLiteral_append (literal : String) (rest : List Char) :
    readLiteral literal (text literal ++ rest) = some rest := by
  rw [readLiteral, if_pos (by simp), List.drop_left]

end AssistantHub.CompactJson
