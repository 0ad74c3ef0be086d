import Mathlib.Data.List.TakeWhile

namespace AssistantHub.RegexMatching

variable {α : Type*}

/-- Regular expressions whose repetitions repeat one class of letters, with one
group at most. `many p least most lazy` takes letters of the class `p`, as many
as it can or, if it is lazy, as few as it can. -/
inductive Pattern (α : Type*) where
  | many (p : α → Bool) (least : Nat) (most : Option Nat) (lazy : Bool)
  | start
  | group (r : Pattern α)
  | seq (r r' : Pattern α)
  | alt (r r' : Pattern α)

/-- A match at the front of a text: what it takes, and what the group takes of
it. -/
structure Hit (α : Type*) where
  taken : List α
  group : Option (List α)

/-- How many letters of a class stand at the front, up to a limit. -/
def runLength (p : α → Bool) (most : Option Nat) (s : List α) : Nat :=
  match most with
  | none => (s.takeWhile p).length
  | some limit => min limit (s.takeWhile p).length

/-- The numbers from `least` to `n` in the order in which they are tried. -/
def lengths (least n : Nat) (lazy : Bool) : List Nat :=
  if lazy then (List.range (n + 1)).drop least
  else ((List.range (n + 1)).drop least).reverse

namespace Pattern

/-- All matches at the front of a text, in the order in which a backtracking
search comes to them. -/
def hits : Pattern α → Bool → List α → List (Hit α)
  | many p least most lazy, _, s =>
      (lengths least (runLength p most s) lazy).map fun n => ⟨s.take n, none⟩
  | start, atStart, _ => if atStart then [⟨[], none⟩] else []
  | group r, atStart, s =>
      (r.hits atStart s).map fun h => ⟨h.taken, some h.taken⟩
  | seq r r', atStart, s =>
      (r.hits atStart s).flatMap fun h =>
        (r'.hits (atStart && h.taken.isEmpty) (s.drop h.taken.length)).map fun h' =>
          ⟨h.taken ++ h'.taken, h'.group <|> h.group⟩
  | alt r r', atStart, s => r.hits atStart s ++ r'.hits atStart s

section Hits

variable (r r' : Pattern α) (atStart : Bool) (s : List α)

theorem hits_many (p : α → Bool) (least : Nat) (most : Option Nat) (lazy : Bool) :
    (many p least most lazy).hits atStart s =
      (lengths least (runLength p most s) lazy).map fun n => ⟨s.take n, none⟩ := rfl

theorem hits_start : (start : Pattern α).hits true s = [⟨[], none⟩] := rfl

theorem hits_group :
    (group r).hits atStart s =
      (r.hits atStart s).map fun h => ⟨h.taken, some h.taken⟩ := rfl

theorem hits_seq :
    (seq r r').hits atStart s =
      (r.hits atStart s).flatMap fun h =>
        (r'.hits (atStart && h.taken.isEmpty) (s.drop h.taken.length)).map fun h' =>
          ⟨h.taken ++ h'.taken, h'.group <|> h.group⟩ := rfl

theorem hits_alt :
    (alt r r').hits atStart s = r.hits atStart s ++ r'.hits atStart s := rfl

end Hits

/-- The match that counts at the front of a text. -/
def first (r : Pattern α) (atStart : Bool) (s : List α) : Option (Hit α) :=
  (r.hits atStart s).head?

def isMatch (r : Pattern α) : (atStart : Bool) → List α → Bool
  | atStart, [] => (r.first atStart []).isSome
  | atStart, c :: s => (r.first atStart (c :: s)).isSome || r.isMatch false s

/-- The leftmost match is replaced. The pattern must not match an empty text. -/
def replace (r : Pattern α) (replacement : Hit α → List α) :
    (atStart : Bool) → List α → List α
  | _, [] => []
  | atStart, c :: s =>
      match r.first atStart (c :: s) with
      | some h => replacement h ++ (c :: s).drop h.taken.length
      | none => c :: r.replace replacement false s

/-- All matches are replaced from the left, behind `skipped` letters of the last
one. Here too no match may be empty. -/
def replaceAllFrom (r : Pattern α) (replacement : Hit α → List α) :
    (skipped : Nat) → (atStart : Bool) → List α → List α
  | _, _, [] => []
  | skipped + 1, _, _ :: s => r.replaceAllFrom replacement skipped false s
  | 0, atStart, c :: s =>
      match r.first atStart (c :: s) with
      | some h => replacement h ++
          r.replaceAllFrom replacement (h.taken.length - 1) false s
      | none => c :: r.replaceAllFrom replacement 0 false s

def replaceAll (r : Pattern α) (replacement : Hit α → List α) (s : List α) : List α :=
  r.replaceAllFrom replacement 0 true s

section Searches

variable (r : Pattern α) (replacement : Hit α → List α) (atStart : Bool) (c : α)
variable (s : List α)

theorem first_eq_head? : r.first atStart s = (r.hits atStart s).head? := rfl

theorem isMatch_nil : r.isMatch atStart [] = (r.first atStart []).isSome := rfl

theorem isMatch_cons :
    r.isMatch atStart (c :: s) =
      ((r.first atStart (c :: s)).isSome || r.isMatch false s) := rfl

theorem replace_cons :
    r.replace replacement atStart (c :: s) =
      match r.first atStart (c :: s) with
      | some h => replacement h ++ (c :: s).drop h.taken.length
      | none => c :: r.replace replacement false s := rfl

theorem replaceAllFrom_cons :
    r.replaceAllFrom replacement 0 atStart (c :: s) =
      match r.first atStart (c :: s) with
      | some h => replacement h ++
          r.replaceAllFrom replacement (h.taken.length - 1) false s
      | none => c :: r.replaceAllFrom replacement 0 false s := rfl

end Searches

/-- One letter of a class. -/
def one (p : α → Bool) : Pattern α := many p 1 (some 1) false

/-- A text in front of a pattern. -/
def after [DecidableEq α] (text : List α) (r : Pattern α) : Pattern α :=
  text.foldr (fun c r => seq (one fun d => decide (d = c)) r) r

end Pattern

open Pattern

theorem mem_lengths {least n k : Nat} {lazy : Bool} :
    k ∈ lengths least n lazy ↔ least ≤ k ∧ k ≤ n := by
  have hup : k ∈ (List.range (n + 1)).drop least ↔ least ≤ k ∧ k ≤ n := by
    rw [List.mem_drop_iff_getElem]
    simp only [List.length_range, List.getElem_range]
    constructor
    · rintro ⟨i, hi, rfl⟩
      omega
    · rintro ⟨hleast, hk⟩
      exact ⟨k - least, by omega, by omega⟩
  rw [lengths]
  split
  · exact hup
  · rw [List.mem_reverse, hup]

theorem head?_lengths {least n : Nat} (h : least ≤ n) :
    (lengths least n false).head? = some n := by
  rw [lengths, if_neg Bool.false_ne_true, List.head?_reverse, List.getLast?_drop,
    List.length_range, if_neg (by omega), List.range_succ, List.getLast?_append,
    List.getLast?_singleton]
  rfl

section Classes

variable {p : α → Bool}

theorem forall_head?_cons {c : α} (hc : p c = false) (s : List α) :
    ∀ d ∈ (c :: s).head?, p d = false := by
  intro d hd
  obtain rfl := Option.some.inj hd
  exact hc

theorem takeWhile_append_of_stop {run rest : List α} (hrun : ∀ c ∈ run, p c = true)
    (hstop : ∀ c ∈ rest.head?, p c = false) : (run ++ rest).takeWhile p = run := by
  rw [List.takeWhile_append_of_pos hrun]
  rcases rest with _ | ⟨c, rest⟩
  · rw [List.takeWhile_nil, List.append_nil]
  · rw [List.takeWhile_cons_of_neg, List.append_nil]
    rw [hstop c rfl]
    exact Bool.false_ne_true

/-- A greedy repetition takes the whole run in front of it. -/
theorem first_many_append {least : Nat} {most : Option Nat} {run rest : List α}
    (hrun : ∀ c ∈ run, p c = true) (hstop : ∀ c ∈ rest.head?, p c = false)
    (hleast : least ≤ run.length) (hmost : ∀ limit ∈ most, run.length ≤ limit)
    (atStart : Bool) :
    (many p least most false).first atStart (run ++ rest) = some ⟨run, none⟩ := by
  have hlength : runLength p most (run ++ rest) = run.length := by
    rcases most with _ | limit
    · rw [runLength, takeWhile_append_of_stop hrun hstop]
    · rw [runLength, takeWhile_append_of_stop hrun hstop]
      exact Nat.min_eq_right (hmost limit rfl)
  rw [first_eq_head?, hits_many, hlength, List.head?_map, head?_lengths hleast, Option.map_some,
    List.take_left]

theorem first_many_none_append {least : Nat} {run rest : List α}
    (hrun : ∀ c ∈ run, p c = true) (hstop : ∀ c ∈ rest.head?, p c = false)
    (hleast : least ≤ run.length) (atStart : Bool) :
    (many p least none false).first atStart (run ++ rest) = some ⟨run, none⟩ :=
  first_many_append hrun hstop hleast
    (fun limit hlimit => absurd hlimit (Option.not_mem_none limit)) atStart

theorem hits_many_of_stop {least : Nat} {most : Option Nat} {lazy : Bool} {s : List α}
    (hleast : 0 < least) (hstop : ∀ c ∈ s.head?, p c = false) (atStart : Bool) :
    (many p least most lazy).hits atStart s = [] := by
  have hlength : runLength p most s = 0 := by
    have htake := @takeWhile_append_of_stop α p [] s
      (fun c hc => absurd hc List.not_mem_nil) hstop
    rw [List.nil_append] at htake
    rcases most with _ | limit
    · rw [runLength, htake, List.length_nil]
    · rw [runLength, htake, List.length_nil, Nat.min_zero]
  rw [hits_many, List.map_eq_nil_iff, hlength, List.eq_nil_iff_forall_not_mem]
  intro k hk
  have hk := mem_lengths.mp hk
  omega

theorem hits_many_of_neg {most : Option Nat} {lazy : Bool} {c : α} (hc : p c = false)
    (s : List α) (atStart : Bool) : (many p 1 most lazy).hits atStart (c :: s) = [] :=
  hits_many_of_stop Nat.one_pos (forall_head?_cons hc s) atStart

theorem mem_hits_many {least : Nat} {most : Option Nat} {lazy atStart : Bool}
    {s : List α} {h : Hit α} (hh : h ∈ (many p least most lazy).hits atStart s) :
    ∃ rest, s = h.taken ++ rest ∧ (∀ c ∈ h.taken, p c = true) ∧
      least ≤ h.taken.length ∧ ∀ limit ∈ most, h.taken.length ≤ limit := by
  obtain ⟨n, hn, rfl⟩ := List.mem_map.mp hh
  obtain ⟨hleast, hle⟩ := mem_lengths.mp hn
  have hbound : n ≤ (s.takeWhile p).length ∧ ∀ limit ∈ most, n ≤ limit := by
    rcases most with _ | limit
    · exact ⟨hle, nofun⟩
    · refine ⟨hle.trans (Nat.min_le_right _ _), ?_⟩
      intro limit' hlimit
      obtain rfl := Option.mem_some_iff.mp hlimit
      exact hle.trans (Nat.min_le_left _ _)
  have htake : s.take n = (s.takeWhile p).take n := by
    obtain ⟨rest, hrest⟩ := @List.takeWhile_prefix α s p
    calc
      s.take n = (s.takeWhile p ++ rest).take n := by rw [hrest]
      _ = (s.takeWhile p).take n := List.take_append_of_le_length hbound.1
  have hlength : (s.take n).length = n := by
    rw [htake, List.length_take, Nat.min_eq_left hbound.1]
  refine ⟨s.drop n, (List.take_append_drop n s).symm, ?_, ?_, ?_⟩
  · intro c hc
    rw [htake] at hc
    exact List.mem_takeWhile_imp (List.mem_of_mem_take hc)
  · rw [hlength]
    exact hleast
  · rw [hlength]
    exact hbound.2

theorem mem_hits_one {atStart : Bool} {s : List α} {h : Hit α}
    (hh : h ∈ (one p).hits atStart s) :
    ∃ c rest, s = c :: rest ∧ h.taken = [c] ∧ p c = true := by
  obtain ⟨rest, hs, hall, hleast, hmost⟩ := mem_hits_many hh
  obtain ⟨c, hc⟩ := List.length_eq_one_iff.mp (Nat.le_antisymm (hmost 1 rfl) hleast)
  rw [hc] at hs hall
  exact ⟨c, rest, hs, hc, hall c (List.mem_singleton_self c)⟩

theorem first_one {c : α} (hc : p c = true) (rest : List α) (atStart : Bool) :
    (one p).first atStart (c :: rest) = some ⟨[c], none⟩ := by
  rw [first_eq_head?, one, hits_many, runLength, List.takeWhile_cons_of_pos hc, List.length_cons,
    Nat.min_eq_left (Nat.succ_le_succ (Nat.zero_le _))]
  rfl

end Classes

section Rules

variable {r r' : Pattern α} {atStart : Bool} {s : List α}

theorem mem_hits_seq {h : Hit α} :
    h ∈ (seq r r').hits atStart s ↔
      ∃ h₁ ∈ r.hits atStart s,
        ∃ h₂ ∈ r'.hits (atStart && h₁.taken.isEmpty) (s.drop h₁.taken.length),
          h = ⟨h₁.taken ++ h₂.taken, h₂.group <|> h₁.group⟩ := by
  simp only [hits_seq, List.mem_flatMap, List.mem_map, eq_comm]

theorem mem_hits_alt {h : Hit α} :
    h ∈ (alt r r').hits atStart s ↔ h ∈ r.hits atStart s ∨ h ∈ r'.hits atStart s :=
  List.mem_append

theorem mem_hits_group {h : Hit α} :
    h ∈ (group r).hits atStart s ↔
      ∃ h' ∈ r.hits atStart s, h = ⟨h'.taken, some h'.taken⟩ := by
  simp only [hits_group, List.mem_map, eq_comm]

theorem first_seq {h₁ h₂ : Hit α} (h₁first : r.first atStart s = some h₁)
    (h₂first : r'.first (atStart && h₁.taken.isEmpty) (s.drop h₁.taken.length) =
      some h₂) :
    (seq r r').first atStart s =
      some ⟨h₁.taken ++ h₂.taken, h₂.group <|> h₁.group⟩ := by
  obtain ⟨later₁, hhits₁⟩ := List.head?_eq_some_iff.mp h₁first
  obtain ⟨later₂, hhits₂⟩ := List.head?_eq_some_iff.mp h₂first
  rw [first_eq_head?, hits_seq, hhits₁, List.flatMap_cons, hhits₂]
  rfl

/-- Two patterns without a group, one behind the other. -/
theorem first_seq_append {l l' rest : List α}
    (hl : r.first atStart (l ++ rest) = some ⟨l, none⟩)
    (hl' : ∀ atStart, r'.first atStart rest = some ⟨l', none⟩) :
    (seq r r').first atStart (l ++ rest) = some ⟨l ++ l', none⟩ := by
  have hbehind : r'.first (atStart && l.isEmpty) ((l ++ rest).drop l.length) =
      some ⟨l', none⟩ := by
    rw [List.drop_left]
    exact hl' _
  exact first_seq hl hbehind

theorem first_alt_left {h : Hit α} (hfirst : r.first atStart s = some h) :
    (alt r r').first atStart s = some h := by
  obtain ⟨later, hhits⟩ := List.head?_eq_some_iff.mp hfirst
  rw [first_eq_head?, hits_alt, hhits]
  rfl

theorem first_alt_right (hnone : r.hits atStart s = []) :
    (alt r r').first atStart s = r'.first atStart s := by
  rw [first_eq_head?, hits_alt, hnone, List.nil_append, first_eq_head?]

theorem hits_seq_eq_nil (hnone : r.hits atStart s = []) :
    (seq r r').hits atStart s = [] := by
  rw [hits_seq, hnone, List.flatMap_nil]

theorem first_group {h : Hit α} (hfirst : r.first atStart s = some h) :
    (group r).first atStart s = some ⟨h.taken, some h.taken⟩ := by
  rw [first_eq_head?, hits_group, List.head?_map]
  exact congrArg (Option.map _) hfirst

theorem first_start_seq (r : Pattern α) (s : List α) :
    (seq start r).first true s = r.first true s := by
  have hhits : (seq start r).hits true s = (r.hits true s).map fun h =>
      ⟨h.taken, h.group <|> none⟩ := by
    rw [hits_seq, hits_start, List.flatMap_cons, List.flatMap_nil, List.append_nil]
    rfl
  have hsame : (fun h : Hit α => (⟨h.taken, h.group <|> none⟩ : Hit α)) = id := by
    funext h
    rcases h with ⟨taken, _ | group⟩ <;> rfl
  rw [first_eq_head?, hhits, hsame, List.map_id, first_eq_head?]

/-- A pattern for the start of a text matches nowhere else. -/
theorem first_start_seq_false (r : Pattern α) (s : List α) :
    (seq start r).first false s = none := rfl

theorem isMatch_start_seq (r : Pattern α) (s : List α) :
    (seq start r).isMatch true s = (r.first true s).isSome := by
  have hlater (s : List α) : (seq start r).isMatch false s = false := by
    induction s with
    | nil => rfl
    | cons c s ih => rw [isMatch_cons, ih, first_start_seq_false]; rfl
  rcases s with _ | ⟨c, s⟩
  · rw [isMatch_nil, first_start_seq]
  · rw [isMatch_cons, first_start_seq, hlater, Bool.or_false]

theorem replace_start_seq_of_none {replacement : Hit α → List α}
    (hnone : r.first true s = none) :
    (seq start r).replace replacement true s = s := by
  have hlater (s : List α) : (seq start r).replace replacement false s = s := by
    induction s with
    | nil => rfl
    | cons c s ih =>
        rw [replace_cons, first_start_seq_false]
        exact congrArg (c :: ·) ih
  rcases s with _ | ⟨c, s⟩
  · rfl
  · rw [replace_cons, first_start_seq, hnone]
    exact congrArg (c :: ·) (hlater s)

theorem replace_start_seq_of_some {replacement : Hit α → List α} {h : Hit α}
    (hs : s ≠ []) (hfirst : r.first true s = some h) :
    (seq start r).replace replacement true s =
      replacement h ++ s.drop h.taken.length := by
  obtain ⟨c, rest, rfl⟩ := List.exists_cons_of_ne_nil hs
  rw [replace_cons, first_start_seq, hfirst]

/-- A pattern that matches no empty text. -/
def Takes (r : Pattern α) : Prop :=
  ∀ atStart s, ∀ h ∈ r.hits atStart s, h.taken ≠ []

theorem takes_many {p : α → Bool} {least : Nat} {most : Option Nat} {lazy : Bool}
    (hleast : 0 < least) : Takes (many p least most lazy) := by
  intro atStart s h hh
  obtain ⟨-, -, -, hlength, -⟩ := mem_hits_many hh
  exact List.length_pos_iff.mp (Nat.lt_of_lt_of_le hleast hlength)

theorem Takes.seq_left (hr : Takes r) (r' : Pattern α) : Takes (seq r r') := by
  intro atStart s h hh
  obtain ⟨h₁, hh₁, h₂, -, rfl⟩ := mem_hits_seq.mp hh
  exact List.append_ne_nil_of_left_ne_nil (hr atStart s h₁ hh₁) h₂.taken

theorem Takes.seq_right (r : Pattern α) (hr' : Takes r') : Takes (seq r r') := by
  intro atStart s h hh
  obtain ⟨h₁, -, h₂, hh₂, rfl⟩ := mem_hits_seq.mp hh
  exact List.append_ne_nil_of_right_ne_nil h₁.taken (hr' _ _ h₂ hh₂)

theorem Takes.alt (hr : Takes r) (hr' : Takes r') : Takes (alt r r') := by
  intro atStart s h hh
  rcases mem_hits_alt.mp hh with hh | hh
  · exact hr atStart s h hh
  · exact hr' atStart s h hh

theorem Takes.group (hr : Takes r) : Takes (group r) := by
  intro atStart s h hh
  obtain ⟨h', hh', rfl⟩ := mem_hits_group.mp hh
  exact hr atStart s h' hh'

theorem Takes.after [DecidableEq α] (hr : Takes r) (text : List α) :
    Takes (after text r) := by
  induction text with
  | nil => exact hr
  | cons c text ih => exact Takes.seq_right _ ih

/-- Behind the letters that the last match took the search goes on. -/
theorem replaceAllFrom_append (replacement : Hit α → List α) (taken rest : List α) :
    r.replaceAllFrom replacement taken.length false (taken ++ rest) =
      r.replaceAllFrom replacement 0 false rest := by
  induction taken with
  | nil => rfl
  | cons c taken ih => exact ih

/-- Each run of a class is replaced as a whole. -/
theorem replaceAllFrom_run (p : α → Bool) (replacement : Hit α → List α) {run rest : List α}
    (hne : run ≠ []) (hrun : ∀ c ∈ run, p c = true)
    (hstop : ∀ c ∈ rest.head?, p c = false) (atStart : Bool) :
    (many p 1 none false).replaceAllFrom replacement 0 atStart (run ++ rest) =
      replacement ⟨run, none⟩ ++
        (many p 1 none false).replaceAllFrom replacement 0 false rest := by
  obtain ⟨c, more, rfl⟩ := List.exists_cons_of_ne_nil hne
  have hfirst := first_many_none_append hrun hstop (Nat.succ_le_succ (Nat.zero_le _))
    atStart
  rw [List.cons_append, replaceAllFrom_cons, ← List.cons_append, hfirst]
  exact congrArg _ (replaceAllFrom_append replacement more rest)

theorem replaceAllFrom_cons_of_neg {p : α → Bool} (replacement : Hit α → List α) {c : α}
    (hc : p c = false) (s : List α) (atStart : Bool) :
    (many p 1 none false).replaceAllFrom replacement 0 atStart (c :: s) =
      c :: (many p 1 none false).replaceAllFrom replacement 0 false s := by
  have hnone : (many p 1 none false).first atStart (c :: s) = none := by
    rw [first_eq_head?, hits_many_of_neg hc, List.head?_nil]
  rw [replaceAllFrom_cons, hnone]

end Rules

end AssistantHub.RegexMatching
