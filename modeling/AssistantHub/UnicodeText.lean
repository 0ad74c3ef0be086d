import AssistantHub.RustText
import Mathlib.Data.List.Forall2

namespace AssistantHub.UnicodeText

open RustText

/-- The tables of Unicode that the standard library carries: `to_lower` of one
character, and the properties Alphabetic or numeric, Cased and Case_Ignorable. -/
structure Unicode where
  toLower : Char → List Char
  isAlphanumeric : Char → Bool
  isCased : Char → Bool
  isCaseIgnorable : Char → Bool
  toLower_ascii : ∀ c, c.toNat < 128 → toLower c = [c.toLower]
  isAlphanumeric_ascii : ∀ c, c.toNat < 128 → isAlphanumeric c = c.isAlphanum
  toLower_whitespace : ∀ c, isWhitespace c = true → toLower c = [c]
  isAlphanumeric_whitespace : ∀ c, isWhitespace c = true →
    isAlphanumeric c = false
  isCased_whitespace : ∀ c, isWhitespace c = true → isCased c = false
  isCaseIgnorable_whitespace : ∀ c, isWhitespace c = true →
    isCaseIgnorable c = false
  any_toLower : ∀ c, isAlphanumeric c = true →
    (toLower c).any isAlphanumeric = true
  isAlphanumeric_sigma : isAlphanumeric 'σ' = true ∧ isAlphanumeric 'ς' = true

/-- What holds of the letters of a text is decided on the text, not on all
characters. -/
instance decidableForallLetter (l : List Char) (P : Char → Prop)
    [DecidablePred P] : Decidable (∀ c ∈ l, P c) :=
  List.decidableBAll P l

instance decidableExistsLetter (l : List Char) (P : Char → Prop)
    [DecidablePred P] : Decidable (∃ c ∈ l, P c) :=
  List.decidableBEx P l

theorem isAlphanum_iff (c : Char) :
    c.isAlphanum = true ↔ 65 ≤ c.toNat ∧ c.toNat ≤ 90 ∨
      97 ≤ c.toNat ∧ c.toNat ≤ 122 ∨ 48 ≤ c.toNat ∧ c.toNat ≤ 57 := by
  delta Char.isAlphanum Char.isAlpha Char.isUpper Char.isLower Char.isDigit
  simp only [Bool.or_eq_true, Bool.and_eq_true, decide_eq_true_iff, or_assoc]
  exact Iff.rfl

theorem toNat_toLower (c : Char) :
    c.toLower.toNat =
      if 65 ≤ c.toNat ∧ c.toNat ≤ 90 then c.toNat + 32 else c.toNat := by
  by_cases h : 65 ≤ c.toNat ∧ c.toNat ≤ 90
  · have hlower : c.toLower = _ := dif_pos h
    have hval : c.val.toNat ≤ 90 := h.2
    rw [if_pos h, hlower]
    show (c.val + 32).toNat = c.val.toNat + 32
    rw [UInt32.toNat_add]
    show (c.val.toNat + 32) % 4294967296 = c.val.toNat + 32
    omega
  · have hlower : c.toLower = c := dif_neg h
    rw [if_neg h, hlower]

theorem not_alphanum_of_whitespace {c : Char} (h : isWhitespace c = true) :
    c.isAlphanum = false := by
  simp only [isWhitespace, Bool.or_eq_true, Bool.and_eq_true,
    decide_eq_true_eq, beq_iff_eq] at h
  rw [← Bool.not_eq_true, isAlphanum_iff]
  omega

theorem toLower_eq_of_whitespace {c : Char} (h : isWhitespace c = true) :
    c.toLower = c := by
  have hnone := not_alphanum_of_whitespace h
  rw [← Bool.not_eq_true, isAlphanum_iff] at hnone
  rw [← Char.toNat_inj, toNat_toLower, if_neg]
  omega

/-- The ideographs and the two small sigmas. -/
def isHanOrSigma (c : Char) : Bool :=
  (0x4e00 ≤ c.toNat && c.toNat ≤ 0x9fff) ||
    (0x3c2 ≤ c.toNat && c.toNat ≤ 0x3c3)

theorem isHanOrSigma_iff (c : Char) :
    isHanOrSigma c = true ↔ 0x4e00 ≤ c.toNat ∧ c.toNat ≤ 0x9fff ∨
      0x3c2 ≤ c.toNat ∧ c.toNat ≤ 0x3c3 := by
  rw [isHanOrSigma]
  simp only [Bool.or_eq_true, Bool.and_eq_true, decide_eq_true_iff]

/-- The tables for texts of ASCII and ideographs. -/
def Unicode.asciiHan : Unicode where
  toLower c := [c.toLower]
  isAlphanumeric c := c.isAlphanum || isHanOrSigma c
  isCased c := c.isAlpha
  isCaseIgnorable c := [0x27, 0x2e, 0x3a, 0x5e, 0x60].contains c.toNat
  toLower_ascii _ _ := rfl
  isAlphanumeric_ascii c h := by
    have hnone : isHanOrSigma c = false := by
      rw [← Bool.not_eq_true, isHanOrSigma_iff]
      omega
    rw [hnone, Bool.or_false]
  toLower_whitespace c h := congrArg (fun d => [d]) (toLower_eq_of_whitespace h)
  isAlphanumeric_whitespace c h := by
    rw [not_alphanum_of_whitespace h, ← Bool.not_eq_true, Bool.false_or,
      isHanOrSigma_iff]
    simp only [isWhitespace, Bool.or_eq_true, Bool.and_eq_true,
      decide_eq_true_eq, beq_iff_eq] at h
    omega
  isCased_whitespace c h := by
    have hnone := not_alphanum_of_whitespace h
    rw [Char.isAlphanum, Bool.or_eq_false_iff] at hnone
    exact hnone.1
  isCaseIgnorable_whitespace c h := by
    simp only [isWhitespace, Bool.or_eq_true, Bool.and_eq_true,
      decide_eq_true_eq, beq_iff_eq] at h
    rw [List.contains_eq_mem, decide_eq_false_iff_not]
    intro hmem
    simp only [List.mem_cons, List.not_mem_nil, or_false] at hmem
    omega
  any_toLower c h := by
    rw [Bool.or_eq_true, isAlphanum_iff, isHanOrSigma_iff] at h
    rw [List.any_cons, List.any_nil, Bool.or_false, Bool.or_eq_true,
      isAlphanum_iff, isHanOrSigma_iff, toNat_toLower]
    split
    · omega
    · omega
  isAlphanumeric_sigma := by decide

namespace Unicode

variable (u : Unicode)

def caseIgnorableThenCased (l : List Char) : Bool :=
  (l.dropWhile u.isCaseIgnorable).head?.any u.isCased

/-- Σ maps to σ, except at the end of a word where it maps to ς. -/
def mapUppercaseSigma (before after : List Char) : Char :=
  if u.caseIgnorableThenCased before && !u.caseIgnorableThenCased after then 'ς'
  else 'σ'

/-- The text behind `before`, which holds the characters before it from the
last one on. -/
def toLowercaseFrom (before : List Char) : List Char → List Char
  | [] => []
  | c :: rest =>
      (if c = 'Σ' then [u.mapUppercaseSigma before rest] else u.toLower c) ++
        toLowercaseFrom (c :: before) rest

def toLowercase (s : List Char) : List Char := u.toLowercaseFrom [] s

variable {u} {c : Char}

theorem caseIgnorableThenCased_append (hc : isWhitespace c = true)
    (l m : List Char) :
    u.caseIgnorableThenCased (l ++ c :: m) = u.caseIgnorableThenCased l := by
  rw [caseIgnorableThenCased, caseIgnorableThenCased, List.dropWhile_append]
  split
  · rename_i hnil
    rw [List.isEmpty_iff.mp hnil, List.dropWhile_cons_of_neg]
    · exact u.isCased_whitespace c hc
    · rw [u.isCaseIgnorable_whitespace c hc]
      exact Bool.false_ne_true
  · rename_i hsome
    rcases hdrop : l.dropWhile u.isCaseIgnorable with _ | ⟨d, rest⟩
    · rw [hdrop] at hsome
      exact absurd rfl hsome
    · rfl

/-- No word reaches over a whitespace character. -/
theorem toLowercaseFrom_before (hc : isWhitespace c = true)
    (before more s : List Char) :
    u.toLowercaseFrom (before ++ c :: more) s = u.toLowercaseFrom before s := by
  induction s generalizing before with
  | nil => rfl
  | cons d s ih =>
      have hcons : d :: (before ++ c :: more) = (d :: before) ++ c :: more := rfl
      rw [toLowercaseFrom, toLowercaseFrom, mapUppercaseSigma,
        mapUppercaseSigma, caseIgnorableThenCased_append hc, hcons, ih]

theorem toLowercaseFrom_append (hc : isWhitespace c = true)
    (before s rest : List Char) :
    u.toLowercaseFrom before (s ++ c :: rest) =
      u.toLowercaseFrom before s ++ c :: u.toLowercase rest := by
  induction s generalizing before with
  | nil =>
      have hsigma : c ≠ 'Σ' := by
        rintro rfl
        exact absurd hc (by decide)
      rw [List.nil_append, toLowercaseFrom, toLowercaseFrom, if_neg hsigma,
        u.toLower_whitespace c hc]
      exact congrArg _ (toLowercaseFrom_before hc [] before rest)
  | cons d s ih =>
      rw [List.cons_append, toLowercaseFrom, toLowercaseFrom, ih,
        List.append_assoc, mapUppercaseSigma, mapUppercaseSigma,
        caseIgnorableThenCased_append hc]

theorem toLowercase_append (hc : isWhitespace c = true) (s rest : List Char) :
    u.toLowercase (s ++ c :: rest) =
      u.toLowercase s ++ c :: u.toLowercase rest :=
  toLowercaseFrom_append hc [] s rest

/-- A letter or digit stays one in lowercase. -/
theorem exists_alphanumeric_toLowercaseFrom {s : List Char} (hs : c ∈ s)
    (hc : u.isAlphanumeric c = true) (before : List Char) :
    ∃ d ∈ u.toLowercaseFrom before s, u.isAlphanumeric d = true := by
  induction s generalizing before with
  | nil => exact absurd hs List.not_mem_nil
  | cons d s ih =>
      rw [toLowercaseFrom]
      rcases List.mem_cons.mp hs with rfl | hs
      · split
        · refine ⟨_, List.mem_append_left _ List.mem_cons_self, ?_⟩
          rw [mapUppercaseSigma]
          split
          · exact u.isAlphanumeric_sigma.2
          · exact u.isAlphanumeric_sigma.1
        · obtain ⟨d, hd, halnum⟩ := List.any_eq_true.mp (u.any_toLower c hc)
          exact ⟨d, List.mem_append_left _ hd, halnum⟩
      · obtain ⟨e, he, halnum⟩ := ih hs (d :: before)
        exact ⟨e, List.mem_append_right _ he, halnum⟩

/-- On ASCII text the table of the letters A to Z is all there is. -/
theorem toLowercaseFrom_ascii {s : List Char} (hs : ∀ c ∈ s, c.toNat < 128)
    (before : List Char) :
    u.toLowercaseFrom before s = s.map Char.toLower := by
  induction s generalizing before with
  | nil => rfl
  | cons d s ih =>
      rw [List.forall_mem_cons] at hs
      have hsigma : d ≠ 'Σ' := by
        rintro rfl
        exact absurd hs.1 (by decide)
      rw [toLowercaseFrom, if_neg hsigma, u.toLower_ascii d hs.1, ih hs.2]
      rfl

/-- The same letter, or a sigma that is no longer the last letter of a word. -/
def SameButSigma (c d : Char) : Prop := c = d ∨ c = 'ς' ∧ d = 'σ'

theorem caseIgnorableThenCased_of_append {l : List Char}
    (h : u.caseIgnorableThenCased l = true) (m : List Char) :
    u.caseIgnorableThenCased (l ++ m) = true := by
  rw [caseIgnorableThenCased] at h ⊢
  rw [List.dropWhile_append]
  rcases hdrop : l.dropWhile u.isCaseIgnorable with _ | ⟨d, rest⟩
  · rw [hdrop] at h
    cases h
  · rw [hdrop] at h
    simpa using h

theorem sameButSigma_mapUppercaseSigma (before after m : List Char) :
    SameButSigma (u.mapUppercaseSigma before after)
      (u.mapUppercaseSigma before (after ++ m)) := by
  rw [mapUppercaseSigma, mapUppercaseSigma]
  rcases hbefore : u.caseIgnorableThenCased before with _ | _
  · exact Or.inl rfl
  · rcases hafter : u.caseIgnorableThenCased after with _ | _
    · rcases u.caseIgnorableThenCased (after ++ m) with _ | _
      · exact Or.inl rfl
      · exact Or.inr ⟨rfl, rfl⟩
    · rw [caseIgnorableThenCased_of_append hafter]
      exact Or.inl rfl

/-- What follows a text changes no letter of it but a sigma. -/
theorem exists_toLowercaseFrom_append (before s m : List Char) :
    ∃ l, u.toLowercaseFrom before (s ++ m) =
        l ++ u.toLowercaseFrom (s.reverse ++ before) m ∧
      List.Forall₂ SameButSigma (u.toLowercaseFrom before s) l := by
  induction s generalizing before with
  | nil => exact ⟨[], rfl, .nil⟩
  | cons c s ih =>
      obtain ⟨l, hl, hsame⟩ := ih (c :: before)
      rw [List.cons_append, toLowercaseFrom, toLowercaseFrom, hl]
      by_cases hsigma : c = 'Σ'
      · refine ⟨[u.mapUppercaseSigma before (s ++ m)] ++ l, by simp [hsigma], ?_⟩
        rw [if_pos hsigma]
        exact .cons (sameButSigma_mapUppercaseSigma before s m) hsame
      · refine ⟨u.toLower c ++ l, by simp [hsigma], ?_⟩
        rw [if_neg hsigma]
        refine List.rel_append ?_ hsame
        exact List.forall₂_same.mpr fun d _ => Or.inl rfl

/-- The letters that lowercase text is made of stay as they are. -/
structure KeepsLower (u : Unicode) : Prop where
  toLower_toLower : ∀ c, c ≠ 'Σ' → ∀ d ∈ u.toLower c,
    d ≠ 'Σ' ∧ u.toLower d = [d]
  toLower_sigma : u.toLower 'σ' = ['σ'] ∧ u.toLower 'ς' = ['ς']

theorem KeepsLower.of_mem_toLowercaseFrom (hu : KeepsLower u)
    {before s : List Char} {d : Char} (hd : d ∈ u.toLowercaseFrom before s) :
    d ≠ 'Σ' ∧ u.toLower d = [d] := by
  induction s generalizing before with
  | nil => exact absurd hd List.not_mem_nil
  | cons c s ih =>
      rw [toLowercaseFrom, List.mem_append] at hd
      rcases hd with hd | hd
      · split at hd
        · rw [List.mem_singleton, mapUppercaseSigma] at hd
          split at hd
          · rw [hd]
            exact ⟨by decide, hu.toLower_sigma.2⟩
          · rw [hd]
            exact ⟨by decide, hu.toLower_sigma.1⟩
        · rename_i hsigma
          exact hu.toLower_toLower c hsigma d hd
      · exact ih hd

theorem toLowercaseFrom_eq_self {s : List Char}
    (h : ∀ c ∈ s, c ≠ 'Σ' ∧ u.toLower c = [c]) (before : List Char) :
    u.toLowercaseFrom before s = s := by
  induction s generalizing before with
  | nil => rfl
  | cons c s ih =>
      rw [List.forall_mem_cons] at h
      rw [toLowercaseFrom, if_neg h.1.1, h.1.2, ih h.2]
      rfl

theorem keepsLower_asciiHan : KeepsLower asciiHan where
  toLower_toLower c hc d hd := by
    obtain rfl := List.mem_singleton.mp hd
    have hlower := toNat_toLower c
    refine ⟨?_, ?_⟩
    · intro hsigma
      rw [hsigma] at hlower
      have hvalue : 'Σ'.toNat = 931 := rfl
      rw [hvalue] at hlower
      split at hlower
      · omega
      · exact hc (Char.toNat_inj.mp (hvalue.trans hlower).symm)
    · have htwice : c.toLower.toLower = c.toLower := by
        rw [← Char.toNat_inj, toNat_toLower c.toLower, hlower]
        split
        · rw [if_neg (by omega)]
        · rfl
      exact congrArg (fun d => [d]) htwice
  toLower_sigma := by decide

end Unicode

end AssistantHub.UnicodeText
