import Mathlib.Data.List.Basic

namespace AssistantHub.RustText

/-- `char::is_whitespace`: the Unicode property White_Space. -/
def isWhitespace (c : Char) : Bool :=
  (9 ≤ c.toNat && c.toNat ≤ 13) || c.toNat == 0x20 || c.toNat == 0x85 ||
    c.toNat == 0xa0 || c.toNat == 0x1680 ||
    (0x2000 ≤ c.toNat && c.toNat ≤ 0x200a) || c.toNat == 0x2028 ||
    c.toNat == 0x2029 || c.toNat == 0x202f || c.toNat == 0x205f ||
    c.toNat == 0x3000

def trim (s : String) : String :=
  String.ofList
    ((s.toList.dropWhile isWhitespace).reverse.dropWhile isWhitespace).reverse

/-- The words of a text; `word` holds the letters of the current one. -/
def wordsFrom (word : List Char) : List Char → List (List Char)
  | [] => if word = [] then [] else [word]
  | c :: rest =>
      if isWhitespace c then
        if word = [] then wordsFrom [] rest else word :: wordsFrom [] rest
      else wordsFrom (word ++ [c]) rest

def splitWhitespace (s : String) : List String :=
  (wordsFrom [] s.toList).map String.ofList

/-- The lines of a text; `line` holds the letters of the current one. Only a
line that a line feed ends loses its carriage return. -/
def linesFrom (line : List Char) : List Char → List (List Char)
  | [] => if line = [] then [] else [line]
  | c :: rest =>
      if c = Char.ofNat 10 then
        (if line.getLast? = some (Char.ofNat 13) then line.dropLast else line) ::
          linesFrom [] rest
      else linesFrom (line ++ [c]) rest

def lines (s : String) : List String :=
  (linesFrom [] s.toList).map String.ofList

def beforeLastSpace (chars : List Char) : Option (List Char) :=
  match chars.reverse.dropWhile fun c => c ≠ ' ' with
  | [] => none
  | _ :: head => some head.reverse

/-- `text.replace("..", ".")`: pairs of dots from the left. -/
def replaceDots : List Char → List Char
  | '.' :: '.' :: rest => '.' :: replaceDots rest
  | c :: rest => c :: replaceDots rest
  | [] => []

theorem replaceDots_cons {c : Char} (hc : c ≠ '.') (l : List Char) :
    replaceDots (c :: l) = c :: replaceDots l := by
  rw [replaceDots.eq_2]
  rintro rest rfl
  exact absurd rfl hc

theorem replaceDots_dot_cons {c : Char} (hc : c ≠ '.') (l : List Char) :
    replaceDots ('.' :: c :: l) = '.' :: c :: replaceDots l := by
  rw [replaceDots.eq_2, replaceDots_cons hc]
  rintro rest - heq
  exact hc (List.cons.inj heq).1

@[simp] theorem head?_replaceDots (l : List Char) :
    (replaceDots l).head? = l.head? := by
  rcases l with _ | ⟨c, l⟩
  · rfl
  · by_cases hc : c = '.'
    · rcases l with _ | ⟨d, l⟩
      · rw [hc]
        rfl
      · by_cases hd : d = '.'
        · rw [hc, hd]
          rfl
        · rw [hc, replaceDots_dot_cons hd]
          rfl
    · rw [replaceDots_cons hc]
      rfl

theorem replaceDots_append {s : List Char} (hs : '.' ∉ s) (l : List Char) :
    replaceDots (s ++ l) = s ++ replaceDots l := by
  induction s with
  | nil => rfl
  | cons c s ih =>
      rw [List.mem_cons, not_or] at hs
      rw [List.cons_append, replaceDots_cons (Ne.symm hs.1), ih hs.2]
      rfl

theorem isPrefix_of_isPrefix_replaceDots {s : List Char} (hs : '.' ∉ s)
    {l : List Char} (h : s <+: replaceDots l) : s <+: l := by
  induction s generalizing l with
  | nil => exact List.nil_prefix
  | cons c s ih =>
      rw [List.mem_cons, not_or] at hs
      obtain ⟨rest, hrest⟩ := h
      have hhead := congrArg List.head? hrest
      rw [head?_replaceDots] at hhead
      rcases l with _ | ⟨d, l⟩
      · cases hhead
      · obtain rfl : c = d := Option.some.inj hhead
        rw [replaceDots_cons (Ne.symm hs.1), List.cons_append] at hrest
        rw [List.cons_prefix_cons]
        exact ⟨rfl, ih hs.2 ⟨rest, (List.cons.inj hrest).2⟩⟩

/-- What comes behind a text meets at most one dot of it. -/
theorem replaceDots_append_eq (s : List Char) :
    ∃ kept last, (last = [] ∨ last = ['.']) ∧
      ∀ l, replaceDots (s ++ l) = kept ++ replaceDots (last ++ l) := by
  induction s using replaceDots.induct with
  | case1 rest ih =>
      obtain ⟨kept, last, hlast, hkept⟩ := ih
      refine ⟨'.' :: kept, last, hlast, fun l => ?_⟩
      show '.' :: replaceDots (rest ++ l) = '.' :: (kept ++ _)
      rw [hkept]
  | case2 c rest hpair ih =>
      obtain ⟨kept, last, hlast, hkept⟩ := ih
      by_cases hc : c = '.'
      · rcases rest with _ | ⟨d, rest⟩
        · exact ⟨[], ['.'], Or.inr rfl, fun l => by rw [hc]; rfl⟩
        · have hd : d ≠ '.' := fun hd => hpair rest hc (by rw [hd])
          refine ⟨'.' :: kept, last, hlast, fun l => ?_⟩
          have hrest := hkept l
          rw [List.cons_append, replaceDots_cons hd] at hrest
          rw [hc, List.cons_append, List.cons_append, replaceDots_dot_cons hd,
            hrest]
          rfl
      · refine ⟨c :: kept, last, hlast, fun l => ?_⟩
        rw [List.cons_append, replaceDots_cons hc, hkept]
        rfl
  | case3 => exact ⟨[], [], Or.inl rfl, fun l => rfl⟩

example : trim " Spy x Family\n" = "Spy x Family" := by decide

example : splitWhitespace " to   the\tdesert " = ["to", "the", "desert"] := by
  decide

example : lines "a\r\n\nb" = ["a", "", "b"] := by decide

end AssistantHub.RustText
