import AssistantHub.RegexMatching
import AssistantHub.SpokenText
import AssistantHub.TrimmedEnds
import AssistantHub.UnicodeText
import Mathlib.Data.List.Chain

namespace AssistantHub.SpokenMarkup

open RegexMatching RegexMatching.Pattern RustText SpokenText TrimmedEnds

/-- The Unicode table of the decimal digits, for `\d`. -/
structure Digits where
  isDigit : Char → Bool
  isDigit_ascii : ∀ c, c.toNat < 128 → isDigit c = c.isDigit
  isDigit_whitespace : ∀ c, isWhitespace c = true → isDigit c = false
  isDigit_bullet : isDigit '•' = false

def bullets : List Char := ['-', '*', '+', '•']

def tick : Char := Char.ofNat 96

def lineFeed : Char := Char.ofNat 10

def equals (letter c : Char) : Bool := decide (c = letter)

def isNot (letter c : Char) : Bool := decide (c ≠ letter)

/-- `[.)]`. -/
def endsNumber (c : Char) : Bool := decide (c = '.' ∨ c = ')')

/-- `\s+`. -/
def someSpaces : Pattern Char := many isWhitespace 1 none false

def codeBlockPattern : Pattern Char :=
  after [tick, tick, tick] (seq (many (fun _ => true) 0 none true)
    (after [tick, tick] (one (equals tick))))

def linkPattern : Pattern Char :=
  after ['['] (seq (group (many (isNot ']') 1 none false))
    (after [']', '('] (seq (many (isNot ')') 0 none false)
      (one (equals ')')))))

/-- The text between two equal marks, `front` and then `last`. -/
def emphasisPattern (front : List Char) (last : Char) : Pattern Char :=
  after (front ++ [last]) (seq (group (many (isNot lineFeed) 1 none true))
    (after front (one (equals last))))

/-- `#{1,6}\s+`. -/
def headingPattern : Pattern Char :=
  seq (many (equals '#') 1 (some 6) false) someSpaces

/-- `[-*+•]\s+`. -/
def bulletPattern : Pattern Char := seq (one bullets.contains) someSpaces

/-- `\d+[.)]\s+`. -/
def numberPattern (d : Digits) : Pattern Char :=
  seq (many d.isDigit 1 none false)
    (seq (one endsNumber) someSpaces)

/-- `>\s*`. -/
def quotePattern : Pattern Char :=
  seq (one (equals '>')) (many isWhitespace 0 none false)

/-- What `LINE_PREFIX` can take between white space. -/
def alternatives (d : Digits) : Pattern Char :=
  alt headingPattern (alt bulletPattern (alt (numberPattern d) quotePattern))

/-- `LINE_PREFIX` behind the start of the line. -/
def markerPattern (d : Digits) : Pattern Char :=
  seq (many isWhitespace 0 none false) (group (alternatives d))

def linePrefixPattern (d : Digits) : Pattern Char := seq start (markerPattern d)

/-- The regular expressions of `speakable` with what they mean. -/
def patterns (d : Digits) : List (String × Pattern Char) :=
  [(codeBlock, codeBlockPattern), (link, linkPattern),
    (linePrefix, linePrefixPattern d), (spaces, someSpaces)] ++
  emphasis.zip [emphasisPattern ['*'] '*', emphasisPattern ['_'] '_',
    emphasisPattern [] '*', emphasisPattern [] tick]

/-- No pattern matches an empty text, as the replacements of the matcher ask for. -/
theorem takes_of_mem_patterns {d : Digits} : ∀ p ∈ patterns d, Takes p.2 := by
  have hone (p : Char → Bool) : Takes (one p) := takes_many Nat.one_pos
  have hspaces : Takes someSpaces := takes_many Nat.one_pos
  have hemphasis (front : List Char) (last : Char) : Takes (emphasisPattern front last) :=
    (((hone _).after front).seq_right _).after _
  have hmarker : Takes (alternatives d) :=
    (hspaces.seq_right _).alt (((hone _).seq_left _).alt
      (((takes_many Nat.one_pos).seq_left _).alt ((hone _).seq_left _)))
  refine List.forall_mem_append.mpr ⟨?_, ?_⟩
  · simp only [List.forall_mem_cons, List.not_mem_nil, false_imp_iff, implies_true, and_true]
    exact ⟨(((hone _).after _).seq_right _).after _,
      ((((hone _).seq_right _).after _).seq_right _).after _,
      (hmarker.group.seq_right _).seq_right _, hspaces⟩
  · simp only [emphasis, List.zip_cons_cons, List.zip_nil_right, List.forall_mem_cons,
      List.not_mem_nil, false_imp_iff, implies_true, and_true]
    exact ⟨hemphasis _ _, hemphasis _ _, hemphasis _ _, hemphasis _ _⟩

/-- What a match is replaced by: the text of its group or a fixed text. -/
def expand (replacement : String) (h : Hit Char) : List Char :=
  if replacement = "$1" then h.group.getD [] else replacement.toList

def rustRegex (d : Digits) : Regex where
  replaceAll pattern text replacement :=
    match (patterns d).lookup pattern with
    | some r => String.ofList (r.replaceAll (expand replacement) text.toList)
    | none => text
  replace pattern text replacement :=
    match (patterns d).lookup pattern with
    | some r => String.ofList (r.replace (expand replacement) true text.toList)
    | none => text

/-- A library that gives the patterns their meaning, with the replacements that
`speakable` asks for. -/
structure Mean (d : Digits) (regex : Regex) : Prop where
  replaceAll_eq : ∀ p ∈ patterns d, ∀ replacement ∈ ["$1", " "], ∀ text,
    regex.replaceAll p.1 text replacement =
      String.ofList (p.2.replaceAll (expand replacement) text.toList)
  replace_eq : ∀ p ∈ patterns d, ∀ text,
    regex.replace p.1 text "" = String.ofList (p.2.replace (expand "") true text.toList)

theorem lookup_patterns {d : Digits} : ∀ p ∈ patterns d, (patterns d).lookup p.1 = some p.2 := by
  simp only [patterns, emphasis, List.zip_cons_cons, List.zip_nil_right, List.cons_append,
    List.nil_append, List.forall_mem_cons]
  exact ⟨rfl, rfl, rfl, rfl, rfl, rfl, rfl, rfl, by simp⟩

theorem mean_rustRegex (d : Digits) : Mean d (rustRegex d) where
  replaceAll_eq p hp replacement _ text := by
    simp only [rustRegex, lookup_patterns p hp]
  replace_eq p hp text := by
    simp only [rustRegex, lookup_patterns p hp]

/-- The texts that a marker of a line begins with: as much white space behind it
as it needs. -/
inductive Marker (d : Digits) : List Char → Prop
  | heading {n : Nat} {c : Char} : 1 ≤ n → n ≤ 6 → isWhitespace c = true →
      Marker d (List.replicate n '#' ++ [c])
  | bullet {b c : Char} : b ∈ bullets → isWhitespace c = true → Marker d [b, c]
  | number {ds : List Char} {e c : Char} : ds ≠ [] →
      (∀ x ∈ ds, d.isDigit x = true) → e = '.' ∨ e = ')' → isWhitespace c = true →
      Marker d (ds ++ [e, c])
  | quote : Marker d ['>']

def Blank (l : List Char) : Prop := ∀ c ∈ l, isWhitespace c = true

/-- A text that begins with a marker. -/
def Marked (d : Digits) (text : List Char) : Prop :=
  ∃ space m rest, text = space ++ (m ++ rest) ∧ Blank space ∧ Marker d m

section Markers

variable {d : Digits}

theorem Marker.exists_cons {m : List Char} (h : Marker d m) :
    ∃ c rest, m = c :: rest ∧ isWhitespace c = false := by
  rcases h with ⟨hn, -, -⟩ | ⟨hb, -⟩ | ⟨hne, hds, -, -⟩ | _
  · rename_i n c
    obtain ⟨k, rfl⟩ := Nat.exists_eq_add_one.mpr hn
    exact ⟨'#', _, rfl, rfl⟩
  · rename_i b c
    have hall : ∀ b ∈ bullets, isWhitespace b = false := by decide
    exact ⟨b, [c], rfl, hall b hb⟩
  · rename_i ds e c
    obtain ⟨x, more, rfl⟩ := List.exists_cons_of_ne_nil hne
    refine ⟨x, _, rfl, ?_⟩
    rw [← Bool.not_eq_true]
    intro hx
    have hdigit := hds x List.mem_cons_self
    rw [d.isDigit_whitespace x hx] at hdigit
    exact absurd hdigit Bool.false_ne_true
  · exact ⟨'>', [], rfl, rfl⟩

theorem Blank.cons {c : Char} {l : List Char} (hc : isWhitespace c = true)
    (hl : Blank l) : Blank (c :: l) :=
  List.forall_mem_cons.mpr ⟨hc, hl⟩

theorem first_someSpaces {c : Char} {after rest : List Char}
    (hc : isWhitespace c = true) (hafter : Blank after)
    (hstop : ∀ c ∈ rest.head?, isWhitespace c = false) (atStart : Bool) :
    someSpaces.first atStart (c :: (after ++ rest)) = some ⟨c :: after, none⟩ :=
  first_many_none_append (hafter.cons hc) hstop (Nat.succ_le_succ (Nat.zero_le _))
    atStart

section Alternatives

variable {c : Char} {after rest : List Char} (hc : isWhitespace c = true)
  (hafter : Blank after) (hstop : ∀ c ∈ rest.head?, isWhitespace c = false)

include hc hafter hstop

theorem first_headingPattern {n : Nat} (hn : 1 ≤ n) (hsix : n ≤ 6) (atStart : Bool) :
    headingPattern.first atStart (List.replicate n '#' ++ c :: (after ++ rest)) =
      some ⟨List.replicate n '#' ++ c :: after, none⟩ := by
  have hblank : c ≠ '#' := by
    rintro rfl
    exact absurd hc (by decide)
  have hmarks := @first_many_append Char (equals '#') 1 (some 6)
    (List.replicate n '#') (c :: (after ++ rest)) ?_
    (@forall_head?_cons Char (equals '#') c (decide_eq_false hblank) _) ?_ ?_ atStart
  · exact first_seq_append hmarks (first_someSpaces hc hafter hstop)
  · intro x hx
    exact decide_eq_true (List.eq_of_mem_replicate hx)
  · rw [List.length_replicate]
    exact hn
  · intro limit hlimit
    obtain rfl := Option.mem_some_iff.mp hlimit
    rw [List.length_replicate]
    exact hsix

theorem first_bulletPattern {b : Char} (hb : b ∈ bullets) (atStart : Bool) :
    bulletPattern.first atStart (b :: c :: (after ++ rest)) =
      some ⟨b :: c :: after, none⟩ :=
  @first_seq_append Char _ _ atStart [b] _ _
    (first_one (List.contains_iff_mem.mpr hb) _ _) (first_someSpaces hc hafter hstop)

theorem first_numberPattern {ds : List Char} {e : Char} (hne : ds ≠ [])
    (hds : ∀ x ∈ ds, d.isDigit x = true) (he : e = '.' ∨ e = ')') (atStart : Bool) :
    (numberPattern d).first atStart (ds ++ e :: c :: (after ++ rest)) =
      some ⟨ds ++ e :: c :: after, none⟩ := by
  have hend : d.isDigit e = false := by
    rcases he with rfl | rfl
    · exact d.isDigit_ascii '.' (by decide)
    · exact d.isDigit_ascii ')' (by decide)
  have hdigits := first_many_none_append hds
    (forall_head?_cons hend (c :: (after ++ rest)))
    (Nat.one_le_iff_ne_zero.mpr (mt List.length_eq_zero_iff.mp hne)) atStart
  have hdot (atStart : Bool) := @first_seq_append Char
    (one endsNumber) someSpaces atStart [e] (c :: after) _
    (@first_one Char endsNumber e (decide_eq_true he) _ _)
    (first_someSpaces hc hafter hstop)
  exact first_seq_append hdigits hdot

omit hc in
theorem first_quotePattern (atStart : Bool) :
    quotePattern.first atStart ('>' :: (after ++ rest)) = some ⟨'>' :: after, none⟩ :=
  @first_seq_append Char _ _ atStart ['>'] _ _ (first_one (by decide) _ _)
    (first_many_none_append hafter hstop (Nat.zero_le _))

end Alternatives

theorem hits_headingPattern {c : Char} (hc : c ≠ '#') (s : List Char) (atStart : Bool) :
    headingPattern.hits atStart (c :: s) = [] :=
  hits_seq_eq_nil (@hits_many_of_neg Char (equals '#') _ _ _ (decide_eq_false hc) s
    atStart)

theorem hits_bulletPattern {c : Char} (hc : c ∉ bullets) (s : List Char) (atStart : Bool) :
    bulletPattern.hits atStart (c :: s) = [] :=
  hits_seq_eq_nil (hits_many_of_neg
    (Bool.eq_false_iff.mpr fun h => hc (List.contains_iff_mem.mp h)) s atStart)

theorem hits_numberPattern {c : Char} (hc : d.isDigit c = false) (s : List Char)
    (atStart : Bool) : (numberPattern d).hits atStart (c :: s) = [] :=
  hits_seq_eq_nil (hits_many_of_neg hc s atStart)

theorem isDigit_of_mem_bullets : ∀ b ∈ bullets, d.isDigit b = false := by
  intro b hb
  have hascii (c : Char) (hc : c.toNat < 128) (hnot : c.isDigit = false) :
      d.isDigit c = false := (d.isDigit_ascii c hc).trans hnot
  rcases hb with _ | ⟨_, _ | ⟨_, _ | ⟨_, _ | ⟨_, hb⟩⟩⟩⟩
  · exact hascii '-' (by decide) (by decide)
  · exact hascii '*' (by decide) (by decide)
  · exact hascii '+' (by decide) (by decide)
  · exact d.isDigit_bullet
  · exact absurd hb List.not_mem_nil

theorem not_mem_bullets {x : Char} (hx : d.isDigit x = true) : x ∉ bullets := by
  intro hmem
  rw [isDigit_of_mem_bullets x hmem] at hx
  exact absurd hx Bool.false_ne_true

/-- What the alternatives take of a text that begins with a marker: an earlier one
finds nothing at the first letter. -/
theorem first_alternatives {m after rest : List Char} (hm : Marker d m)
    (hafter : Blank after) (hstop : ∀ c ∈ rest.head?, isWhitespace c = false)
    (atStart : Bool) :
    (alternatives d).first atStart (m ++ (after ++ rest)) = some ⟨m ++ after, none⟩ := by
  rw [alternatives]
  rcases hm with ⟨hn, hsix, hc⟩ | ⟨hb, hc⟩ | ⟨hne, hds, he, hc⟩ | _
  · rw [List.append_assoc, List.append_assoc]
    exact first_alt_left (first_headingPattern hc hafter hstop hn hsix atStart)
  · rename_i b c
    have hheading : b ≠ '#' := by
      rintro rfl
      exact absurd hb (by decide)
    rw [List.cons_append, first_alt_right (hits_headingPattern hheading _ _)]
    exact first_alt_left (first_bulletPattern hc hafter hstop hb atStart)
  · have hnumber := @first_alt_left Char _ quotePattern _ _ _
      (first_numberPattern hc hafter hstop hne hds he atStart)
    obtain ⟨x, more, rfl⟩ := List.exists_cons_of_ne_nil hne
    have hx := hds x List.mem_cons_self
    have hheading : x ≠ '#' := by
      rintro rfl
      rw [d.isDigit_ascii '#' (by decide)] at hx
      exact absurd hx (by decide)
    rw [List.append_assoc, List.append_assoc]
    rw [List.cons_append, first_alt_right (hits_headingPattern hheading _ _),
      first_alt_right (hits_bulletPattern (not_mem_bullets hx) _ _)]
    exact hnumber
  · have hnumber : d.isDigit '>' = false := d.isDigit_ascii '>' (by decide)
    rw [List.cons_append, first_alt_right (hits_headingPattern (by decide) _ _),
      first_alt_right (hits_bulletPattern (by decide) _ _),
      first_alt_right (hits_numberPattern hnumber _ _)]
    exact first_quotePattern hafter hstop atStart

theorem Marker.exists_concat {m : List Char} (h : Marker d m) :
    ∃ front c, m = front ++ [c] ∧ c ≠ '.' := by
  have hdot {c : Char} (hc : isWhitespace c = true) : c ≠ '.' := by
    rintro rfl
    exact absurd hc (by decide)
  rcases h with ⟨-, -, hc⟩ | ⟨-, hc⟩ | ⟨-, -, -, hc⟩ | _
  · exact ⟨_, _, rfl, hdot hc⟩
  · rename_i b c
    exact ⟨[b], c, rfl, hdot hc⟩
  · rename_i ds e c
    refine ⟨ds ++ [e], c, ?_, hdot hc⟩
    rw [List.append_assoc, List.singleton_append]
  · exact ⟨[], '>', rfl, by decide⟩

theorem Marker.stop {m : List Char} (h : Marker d m) (rest : List Char) :
    ∀ c ∈ (m ++ rest).head?, isWhitespace c = false := by
  obtain ⟨c, more, rfl, hc⟩ := h.exists_cons
  exact forall_head?_cons hc _

theorem first_markerPattern {space m after rest : List Char} (hspace : Blank space)
    (hm : Marker d m) (hafter : Blank after)
    (hstop : ∀ c ∈ rest.head?, isWhitespace c = false) (atStart : Bool) :
    (markerPattern d).first atStart (space ++ (m ++ (after ++ rest))) =
      some ⟨space ++ (m ++ after), some (m ++ after)⟩ := by
  have hblank := @first_many_none_append Char isWhitespace 0 _ _ hspace
    (hm.stop (after ++ rest)) (Nat.zero_le _) atStart
  have hgroup : (group (alternatives d)).first (atStart && space.isEmpty)
      ((space ++ (m ++ (after ++ rest))).drop space.length) =
        some ⟨m ++ after, some (m ++ after)⟩ := by
    rw [List.drop_left]
    exact first_group (first_alternatives hm hafter hstop _)
  exact first_seq hblank hgroup

theorem exists_blank_of_mem_hits {atStart : Bool} {s : List Char} {h : Hit Char}
    (hh : h ∈ someSpaces.hits atStart s) :
    ∃ c rest, s = c :: rest ∧ isWhitespace c = true := by
  obtain ⟨rest, rfl, hall, hleast, -⟩ := mem_hits_many hh
  obtain ⟨c, more, hc⟩ := List.exists_cons_of_ne_nil
    (List.length_pos_iff.mp (Nat.lt_of_succ_le hleast))
  rw [hc] at hall ⊢
  exact ⟨c, more ++ rest, rfl, hall c List.mem_cons_self⟩

theorem exists_marker_of_mem_hits {atStart : Bool} {s : List Char} {h : Hit Char}
    (hh : h ∈ (alternatives d).hits atStart s) : ∃ m rest, s = m ++ rest ∧ Marker d m := by
  rw [alternatives] at hh
  rcases mem_hits_alt.mp hh with hh | hh
  · obtain ⟨h₁, hh₁, h₂, hh₂, -⟩ := mem_hits_seq.mp hh
    obtain ⟨more, rfl, hall, hleast, hmost⟩ := mem_hits_many hh₁
    rw [List.drop_left] at hh₂
    obtain ⟨c, rest, rfl, hc⟩ := exists_blank_of_mem_hits hh₂
    have hmarks : h₁.taken = List.replicate h₁.taken.length '#' :=
      List.eq_replicate_of_mem fun x hx => of_decide_eq_true (hall x hx)
    refine ⟨h₁.taken ++ [c], rest, ?_, ?_⟩
    · rw [List.append_assoc, List.singleton_append]
    · rw [hmarks]
      exact Marker.heading hleast (hmost 6 rfl) hc
  rcases mem_hits_alt.mp hh with hh | hh
  · obtain ⟨h₁, hh₁, h₂, hh₂, -⟩ := mem_hits_seq.mp hh
    obtain ⟨b, more, rfl, htaken, hb⟩ := mem_hits_one hh₁
    rw [htaken] at hh₂
    obtain ⟨c, rest, hrest, hc⟩ := exists_blank_of_mem_hits hh₂
    obtain rfl : more = c :: rest := hrest
    exact ⟨[b, c], rest, rfl, Marker.bullet (List.contains_iff_mem.mp hb) hc⟩
  rcases mem_hits_alt.mp hh with hh | hh
  · obtain ⟨h₁, hh₁, h₂, hh₂, -⟩ := mem_hits_seq.mp hh
    obtain ⟨more, rfl, hall, hleast, -⟩ := mem_hits_many hh₁
    rw [List.drop_left] at hh₂
    obtain ⟨h₃, hh₃, h₄, hh₄, -⟩ := mem_hits_seq.mp hh₂
    obtain ⟨e, more', rfl, htaken, he⟩ := mem_hits_one hh₃
    rw [htaken] at hh₄
    obtain ⟨c, rest, hrest, hc⟩ := exists_blank_of_mem_hits hh₄
    obtain rfl : more' = c :: rest := hrest
    refine ⟨h₁.taken ++ [e, c], rest, ?_, ?_⟩
    · rw [List.append_assoc, List.cons_append, List.singleton_append]
    · exact Marker.number (List.length_pos_iff.mp (Nat.lt_of_succ_le hleast)) hall
        (of_decide_eq_true he) hc
  · obtain ⟨h₁, hh₁, -⟩ := mem_hits_seq.mp hh
    obtain ⟨q, rest, rfl, -, hq⟩ := mem_hits_one hh₁
    obtain rfl : q = '>' := of_decide_eq_true hq
    exact ⟨['>'], rest, rfl, Marker.quote⟩

theorem marked_of_mem_hits {atStart : Bool} {s : List Char} {h : Hit Char}
    (hh : h ∈ (markerPattern d).hits atStart s) : Marked d s := by
  obtain ⟨h₁, hh₁, h₂, hh₂, -⟩ := mem_hits_seq.mp hh
  obtain ⟨more, rfl, hall, -⟩ := mem_hits_many hh₁
  rw [List.drop_left] at hh₂
  obtain ⟨h₃, hh₃, -⟩ := mem_hits_group.mp hh₂
  obtain ⟨m, rest, rfl, hm⟩ := exists_marker_of_mem_hits hh₃
  exact ⟨h₁.taken, m, rest, rfl, hall, hm⟩

/-- What stands behind the first marker of a line and the white space after it;
the whole line if it begins with none. -/
def Behind (d : Digits) (line rest : List Char) : Prop :=
  (∃ space m after, line = space ++ (m ++ (after ++ rest)) ∧ Blank space ∧
      Marker d m ∧ Blank after ∧ ∀ c ∈ rest.head?, isWhitespace c = false) ∨
    ¬Marked d line ∧ rest = line

theorem exists_behind (d : Digits) (line : List Char) : ∃ rest, Behind d line rest := by
  by_cases hmarked : Marked d line
  · obtain ⟨space, m, rest, rfl, hspace, hm⟩ := hmarked
    refine ⟨rest.dropWhile isWhitespace, Or.inl ⟨space, m,
      rest.takeWhile isWhitespace, ?_, hspace, hm, ?_, ?_⟩⟩
    · rw [List.takeWhile_append_dropWhile]
    · exact fun c hc => List.mem_takeWhile_imp hc
    · exact forall_head?_dropWhile isWhitespace rest
  · exact ⟨line, Or.inr ⟨hmarked, rfl⟩⟩

theorem first_markerPattern_eq_none {s : List Char} (hs : ¬Marked d s) (atStart : Bool) :
    (markerPattern d).first atStart s = none := by
  rw [first_eq_head?, List.head?_eq_none_iff, List.eq_nil_iff_forall_not_mem]
  exact fun h hh => hs (marked_of_mem_hits hh)

theorem isMatch_linePrefixPattern {text : List Char} :
    (linePrefixPattern d).isMatch true text = true ↔ Marked d text := by
  rw [linePrefixPattern, isMatch_start_seq]
  constructor
  · intro hsome
    by_contra hnot
    rw [first_markerPattern_eq_none hnot] at hsome
    exact absurd hsome Bool.false_ne_true
  · intro hmarked
    obtain ⟨rest, ⟨space, m, after, rfl, hspace, hm, hafter, hstop⟩ | ⟨hnot, -⟩⟩ :=
      exists_behind d text
    · rw [first_markerPattern hspace hm hafter hstop]
      rfl
    · exact absurd hmarked hnot

theorem replace_linePrefixPattern {line rest : List Char} (h : Behind d line rest) :
    (linePrefixPattern d).replace (expand "") true line = rest := by
  rcases h with ⟨space, m, after, rfl, hspace, hm, hafter, hstop⟩ | ⟨hnot, rfl⟩
  · have hne : space ++ (m ++ (after ++ rest)) ≠ [] := by
      obtain ⟨c, more, rfl, -⟩ := hm.exists_cons
      exact List.append_ne_nil_of_right_ne_nil _ (List.cons_ne_nil c _)
    rw [linePrefixPattern, replace_start_seq_of_some hne
      (first_markerPattern hspace hm hafter hstop true)]
    show (space ++ (m ++ (after ++ rest))).drop (space ++ (m ++ after)).length = rest
    have hsplit : space ++ (m ++ (after ++ rest)) = (space ++ (m ++ after)) ++ rest := by
      rw [List.append_assoc, List.append_assoc]
    rw [hsplit, List.drop_left]
  · exact replace_start_seq_of_none (first_markerPattern_eq_none hnot true)

end Markers

/-- The lines that `speakable` makes sentences of. -/
def plainLines (regex : Regex) (text : String) : List String :=
  let text := regex.replaceAll codeBlock text " "
  let text := regex.replaceAll link text "$1"
  lines (emphasis.foldl (fun text p => regex.replaceAll p text "$1") text)

theorem speakable_eq (regex : Regex) (text : String) :
    speakable regex text = trim (regex.replaceAll spaces
      (String.ofList (degrees ([' '].intercalate
        ((plainLines regex text).filterMap (sentence regex))))) " ") := rfl

/-- What is left of a line behind its first marker begins with one more, once
the markup characters around it are gone. -/
def Nested (d : Digits) (line : List Char) : Prop :=
  ∃ front space m more back, Behind d line (front ++ (space ++ (m ++ more) ++ back)) ∧
    (∀ c ∈ front, markup.contains c = true) ∧ (∀ c ∈ back, markup.contains c = true) ∧
    (∀ c ∈ (space ++ (m ++ more)).head?, markup.contains c = false) ∧
    (∀ c ∈ (space ++ (m ++ more)).getLast?, markup.contains c = false) ∧
    Blank space ∧ Marker d m

section Sentences

variable {d : Digits} {regex : Regex}

theorem trimMarkup_eq (line : List Char) : trimMarkup line = trimEnds markup.contains line :=
  rfl

theorem toList_replace_linePrefix (hregex : Mean d regex) {line : String}
    {rest : List Char} (h : Behind d line.toList rest) :
    (regex.replace linePrefix line "").toList = rest := by
  have hmem : (linePrefix, linePrefixPattern d) ∈ patterns d := by simp [patterns]
  rw [hregex.replace_eq _ hmem, String.toList_ofList, replace_linePrefixPattern h]

/-- Behind a marker that is complete, more text does not matter. -/
theorem marked_append_dot {text : List Char} :
    Marked d (text ++ ['.']) ↔ Marked d text := by
  constructor
  · rintro ⟨space, m, rest, htext, hspace, hm⟩
    rcases rest.eq_nil_or_concat with rfl | ⟨rest, c, rfl⟩
    · obtain ⟨front, c, rfl, hc⟩ := hm.exists_concat
      rw [List.append_nil, ← List.append_assoc] at htext
      have hlast := (List.append_inj' htext rfl).2
      exact absurd (List.head_eq_of_cons_eq hlast).symm hc
    · rw [List.concat_eq_append, ← List.append_assoc, ← List.append_assoc] at htext
      refine ⟨space, m, rest, ?_, hspace, hm⟩
      rw [(List.append_inj' htext rfl).1, List.append_assoc]
  · rintro ⟨space, m, rest, rfl, hspace, hm⟩
    refine ⟨space, m, rest ++ ['.'], ?_, hspace, hm⟩
    rw [List.append_assoc, List.append_assoc]

/-- The sentence of a line begins with a marker just if the line is nested. -/
theorem marked_trimMarkup_iff {line rest : List Char} (h : Behind d line rest) :
    Marked d (trimMarkup rest) ↔ Nested d line := by
  constructor
  · rintro ⟨space, m, more, htrim, hspace, hm⟩
    obtain ⟨front, back, hrest, hfront, hback⟩ := exists_eq_trimEnds markup.contains rest
    have hhead := @head?_trimEnds Char markup.contains rest
    have hlast := @getLast?_trimEnds Char markup.contains rest
    rw [← trimMarkup_eq, htrim] at hrest hhead hlast
    rw [hrest] at h
    exact ⟨front, space, m, more, back, h, hfront, hback, hhead, hlast, hspace, hm⟩
  · rintro ⟨front, space, m, more, back, h', hfront, hback, hhead, hlast, hspace, hm⟩
    have hrest := (replace_linePrefixPattern h).symm.trans (replace_linePrefixPattern h')
    rw [hrest, trimMarkup_eq, trimEnds_append hfront hback hhead hlast]
    exact ⟨space, m, more, rfl, hspace, hm⟩

/-- A sentence is what is left of its line, with a full stop if it has no ending
of its own. -/
theorem sentence_eq_some (hregex : Mean d regex) {line : String} {rest : List Char}
    (h : Behind d line.toList rest) {s : List Char} (hs : sentence regex line = some s) :
    s ≠ [] ∧ (∃ c ∈ endings, s.getLast? = some c) ∧
      (Marked d s ↔ Marked d (trimMarkup rest)) := by
  rw [sentence, toList_replace_linePrefix hregex h] at hs
  rcases htrim : trimMarkup rest with _ | ⟨c, chars⟩
  · rw [htrim] at hs
    exact absurd hs nofun
  · rw [htrim] at hs
    split at hs
    · rename_i _ hnil
      exact absurd hnil nofun
    · rename_i _ c' chars' heq
      obtain ⟨rfl, rfl⟩ := List.cons.inj heq
      split at hs
      · rename_i hends
        obtain rfl := Option.some.inj hs
        exact ⟨List.cons_ne_nil c chars, ⟨_, List.contains_iff_mem.mp hends,
          List.getLast?_eq_some_getLast _⟩, Iff.rfl⟩
      · obtain rfl := Option.some.inj hs
        refine ⟨List.cons_ne_nil c _, ⟨'.', by decide, ?_⟩, marked_append_dot⟩
        exact List.getLast?_concat

theorem exists_sentence (hregex : Mean d regex) {line : String} {rest : List Char}
    (h : Behind d line.toList rest) (hne : trimMarkup rest ≠ []) :
    ∃ s, sentence regex line = some s := by
  obtain ⟨c, chars, htrim⟩ := List.exists_cons_of_ne_nil hne
  rw [sentence, toList_replace_linePrefix hregex h, htrim]
  show ∃ s, (if endings.contains ((c :: chars).getLast _) = true then some (c :: chars)
    else some (c :: chars ++ ['.'])) = some s
  split
  · exact ⟨_, rfl⟩
  · exact ⟨_, rfl⟩

end Sentences

/-- One line of speech: single spaces between the words and no other white
space. -/
structure Joined (l : List Char) : Prop where
  no_break : ∀ c ∈ l, isWhitespace c = true → c = ' '
  no_double : ¬[' ', ' '] <:+: l
  head : l.head? ≠ some ' '
  last : l.getLast? ≠ some ' '

section Joining

/-- White space is a single space. -/
structure Single (l : List Char) : Prop where
  no_break : ∀ c ∈ l, isWhitespace c = true → c = ' '
  chain : l.IsChain fun a b => ¬(isWhitespace a = true ∧ isWhitespace b = true)

theorem Single.cons_letter {c : Char} {l : List Char} (h : Single l)
    (hc : isWhitespace c = false) : Single (c :: l) where
  no_break := by
    refine List.forall_mem_cons.mpr ⟨fun hblank => ?_, h.no_break⟩
    rw [hc] at hblank
    exact absurd hblank Bool.false_ne_true
  chain := by
    refine List.isChain_cons.mpr ⟨fun y _ hboth => ?_, h.chain⟩
    rw [hc] at hboth
    exact absurd hboth.1 Bool.false_ne_true

theorem Single.cons_space {l : List Char} (h : Single l)
    (hstop : ∀ c ∈ l.head?, isWhitespace c = false) : Single (' ' :: l) where
  no_break := List.forall_mem_cons.mpr ⟨fun _ => rfl, h.no_break⟩
  chain := by
    refine List.isChain_cons.mpr ⟨fun y hy hboth => ?_, h.chain⟩
    rw [hstop y hy] at hboth
    exact absurd hboth.2 Bool.false_ne_true

theorem Single.infix {l m : List Char} (h : Single l) (hm : m <:+: l) : Single m where
  no_break c hc := h.no_break c (hm.subset hc)
  chain := h.chain.infix hm

theorem replaceAllFrom_spaces_cons {c : Char} (hc : isWhitespace c = false)
    (s : List Char) (atStart : Bool) :
    someSpaces.replaceAllFrom (expand " ") 0 atStart (c :: s) =
      c :: someSpaces.replaceAllFrom (expand " ") 0 false s :=
  replaceAllFrom_cons_of_neg _ hc s atStart

theorem head?_replaceAllFrom_spaces {s : List Char}
    (hstop : ∀ c ∈ s.head?, isWhitespace c = false) (atStart : Bool) :
    ∀ c ∈ (someSpaces.replaceAllFrom (expand " ") 0 atStart s).head?,
      isWhitespace c = false := by
  rcases s with _ | ⟨c, s⟩
  · exact fun c hc => absurd hc nofun
  · rw [replaceAllFrom_spaces_cons (hstop c rfl)]
    exact forall_head?_cons (hstop c rfl) _

/-- The induction is on the length, since a whole run of white space is replaced
at a time. -/
theorem single_replaceAllFrom_spaces (s : List Char) (atStart : Bool) :
    Single (someSpaces.replaceAllFrom (expand " ") 0 atStart s) := by
  induction hn : s.length using Nat.strong_induction_on generalizing s atStart with
  | _ n ih =>
      rcases s with _ | ⟨c, s⟩
      · exact ⟨fun c hc => absurd hc List.not_mem_nil, List.IsChain.nil⟩
      · by_cases hc : isWhitespace c = true
        · have hstop := forall_head?_dropWhile isWhitespace s
          have hrun := replaceAllFrom_run isWhitespace (expand " ")
            (List.cons_ne_nil c (s.takeWhile isWhitespace))
            (List.forall_mem_cons.mpr ⟨hc, fun d hd => List.mem_takeWhile_imp hd⟩)
            hstop atStart
          rw [List.cons_append, List.takeWhile_append_dropWhile] at hrun
          have hshort : (s.dropWhile isWhitespace).length < n := by
            rw [← hn, List.length_cons]
            exact Nat.lt_succ_of_le (List.dropWhile_suffix isWhitespace).length_le
          have hrest := ih _ hshort (s.dropWhile isWhitespace) false rfl
          rw [someSpaces, hrun]
          exact hrest.cons_space (head?_replaceAllFrom_spaces hstop false)
        · rw [Bool.not_eq_true] at hc
          rw [replaceAllFrom_spaces_cons hc]
          exact (ih s.length (by rw [← hn]; exact Nat.lt_succ_self _) s false rfl).cons_letter hc

theorem trim_eq (s : String) : trim s = String.ofList (trimEnds isWhitespace s.toList) :=
  rfl

theorem joined_trimEnds {l : List Char} (h : Single l) :
    Joined (trimEnds isWhitespace l) := by
  obtain ⟨front, back, hl, -, -⟩ := exists_eq_trimEnds isWhitespace l
  have hsingle : Single (trimEnds isWhitespace l) := by
    refine h.infix ⟨front, back, ?_⟩
    rw [List.append_assoc, ← hl]
  refine { no_break := hsingle.no_break, no_double := ?_, head := ?_, last := ?_ }
  · intro hdouble
    have hchain := hsingle.chain.infix hdouble
    exact (List.isChain_cons.mp hchain).1 ' ' rfl ⟨rfl, rfl⟩
  · intro hspace
    exact absurd (head?_trimEnds ' ' hspace) (by decide)
  · intro hspace
    exact absurd (getLast?_trimEnds ' ' hspace) (by decide)

theorem joined_speakable {d : Digits} {regex : Regex} (hregex : Mean d regex)
    (text : String) : Joined (speakable regex text).toList := by
  have hmem : (spaces, someSpaces) ∈ patterns d := by simp [patterns]
  rw [speakable_eq, hregex.replaceAll_eq _ hmem " " (by simp), trim_eq,
    String.toList_ofList, String.toList_ofList]
  exact joined_trimEnds (single_replaceAllFrom_spaces _ true)

end Joining

/-- Nothing that goes to the speech engine starts with markup. -/
structure Spoken (d : Digits) (regex : Regex) (text : String) : Prop where
  sentences : ∀ line ∈ plainLines regex text, ∀ s,
    sentence regex line = some s →
      s ≠ [] ∧ (∃ c ∈ endings, s.getLast? = some c) ∧
        (linePrefixPattern d).isMatch true s = false
  joined : Joined (speakable regex text).toList

theorem spoken_iff {d : Digits} {regex : Regex} (hregex : Mean d regex) (text : String) :
    Spoken d regex text ↔
      ∀ line ∈ plainLines regex text, ¬Nested d line.toList := by
  constructor
  · intro hspoken line hline hnested
    obtain ⟨rest, hbehind⟩ := exists_behind d line.toList
    have hmarked := (marked_trimMarkup_iff hbehind).mpr hnested
    have hne : trimMarkup rest ≠ [] := by
      intro hnil
      obtain ⟨space, m, more, htrim, -, hm⟩ := hmarked
      obtain ⟨c, m, rfl, -⟩ := hm.exists_cons
      rw [hnil] at htrim
      exact absurd htrim (List.append_ne_nil_of_right_ne_nil _ (List.cons_ne_nil c _)).symm
    obtain ⟨s, hs⟩ := exists_sentence hregex hbehind hne
    obtain ⟨-, -, hmatch⟩ := hspoken.sentences line hline s hs
    rw [isMatch_linePrefixPattern.mpr
      ((sentence_eq_some hregex hbehind hs).2.2.mpr hmarked)] at hmatch
    exact absurd hmatch.symm Bool.false_ne_true
  · intro hplain
    refine ⟨fun line hline s hs => ?_, joined_speakable hregex text⟩
    obtain ⟨rest, hbehind⟩ := exists_behind d line.toList
    obtain ⟨hne, hends, hsame⟩ := sentence_eq_some hregex hbehind hs
    refine ⟨hne, hends, ?_⟩
    rw [← Bool.not_eq_true, isMatch_linePrefixPattern, hsame,
      marked_trimMarkup_iff hbehind]
    exact hplain line hline

theorem isDigit_eq_false_of_whitespace {c : Char} (hc : isWhitespace c = true) :
    c.isDigit = false := by
  have hnot := UnicodeText.not_alphanum_of_whitespace hc
  rw [Char.isAlphanum, Bool.or_eq_false_iff] at hnot
  exact hnot.2

/-- The digits of ASCII alone. -/
def Digits.ascii : Digits where
  isDigit := Char.isDigit
  isDigit_ascii _ _ := rfl
  isDigit_whitespace _ := isDigit_eq_false_of_whitespace
  isDigit_bullet := by decide

example : (sentence (rustRegex .ascii) "2) Warm!", sentence (rustRegex .ascii) " # Sky") =
    (some "Warm!".toList, some "Sky.".toList) := by
  decide +kernel

theorem spoken_sky : Spoken .ascii (rustRegex .ascii) "# Sky\n2) Warm!" := by
  refine ⟨?_, joined_speakable (mean_rustRegex _) _⟩
  have hlines : plainLines (rustRegex .ascii) "# Sky\n2) Warm!" = ["# Sky", "2) Warm!"] := by
    decide +kernel
  rw [hlines]
  simp only [List.forall_mem_cons, List.not_mem_nil, false_imp_iff, implies_true, and_true]
  constructor
  · intro s hs
    have hsky : sentence (rustRegex .ascii) "# Sky" = some "Sky.".toList := by decide +kernel
    rw [hsky] at hs
    rw [← Option.some.inj hs]
    exact ⟨by decide, ⟨'.', by decide, by decide⟩, by decide +kernel⟩
  · intro s hs
    have hwarm : sentence (rustRegex .ascii) "2) Warm!" = some "Warm!".toList := by
      decide +kernel
    rw [hwarm] at hs
    rw [← Option.some.inj hs]
    exact ⟨by decide, ⟨'!', by decide, by decide⟩, by decide +kernel⟩

theorem spoken_iff_sky :
    Spoken .ascii (rustRegex .ascii) "# Sky\n2) Warm!" ∧
      ¬∃ line ∈ plainLines (rustRegex .ascii) "# Sky\n2) Warm!",
        Nested .ascii line.toList := by
  refine ⟨spoken_sky, ?_⟩
  rintro ⟨line, hline, hnested⟩
  exact (spoken_iff (mean_rustRegex .ascii) _).mp spoken_sky line hline hnested

theorem not_spoken_list_in_quote : ¬Spoken .ascii (rustRegex .ascii) "> - item" := by
  intro h
  have hline : "> - item" ∈ plainLines (rustRegex .ascii) "> - item" := by
    decide +kernel
  have hsentence : sentence (rustRegex .ascii) "> - item" = some "- item.".toList := by
    decide +kernel
  have hmatch : (linePrefixPattern .ascii).isMatch true "- item.".toList = true := by
    decide +kernel
  obtain ⟨-, -, hnone⟩ := h.sentences _ hline _ hsentence
  rw [hmatch] at hnone
  exact absurd hnone.symm Bool.false_ne_true

end AssistantHub.SpokenMarkup
