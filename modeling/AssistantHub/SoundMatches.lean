import AssistantHub.TitleScores
import Mathlib.Data.List.MinMax
import Mathlib.Data.Prod.Lex

namespace AssistantHub.SoundMatches

open TitleScores TitleText UnicodeText

/-- An item of the library list, with the fields that a match reads. -/
structure Item where
  id : String
  name : String
  kind : String
  productionYear : Option Int
  played : Bool
  deriving DecidableEq

/-- Series come first, then unwatched items, then the oldest ones. -/
def matchKey (item : Item) : Bool ×ₗ Bool ×ₗ Int :=
  toLex (decide (item.kind ≠ "Series"),
    toLex (item.played, item.productionYear.getD 2147483647))

/-- The order of the keys is the one of their parts. -/
instance linearOrderKey : LinearOrder (Bool ×ₗ Bool ×ₗ Int) :=
  @Prod.Lex.instLinearOrder Bool (Bool ×ₗ Int) Bool.linearOrder
    (@Prod.Lex.instLinearOrder Bool Int Bool.linearOrder Int.instLinearOrder)

instance preorderKey : Preorder (Bool ×ₗ Bool ×ₗ Int) :=
  linearOrderKey.toPreorder

/-- The one series or movie whose main title has the same consonants as the
query. The source counts the bytes of the consonants. -/
def soundMatch (u : Unicode) (query : String) (library : List Item) :
    Option Item :=
  let q := skeleton u query
  if q.utf8ByteSize < 3 then none
  else
    let found := library.filter fun i => skeleton u (mainTitle i.name) = q
    found.head?.bind fun first =>
      if found.all fun i =>
          squashed u (mainTitle i.name) = squashed u (mainTitle first.name) then
        found.argmin matchKey
      else none

theorem length_le_utf8ByteSize (s : String) : s.length ≤ s.utf8ByteSize := by
  have hlist : ∀ l : List Char, l.length ≤ (String.ofList l).utf8ByteSize := by
    intro l
    induction l with
    | nil => exact Nat.zero_le _
    | cons c l ih =>
        have hsplit : String.ofList (c :: l) =
            String.singleton c ++ String.ofList l := by
          rw [String.singleton_eq_ofList, ← String.ofList_append]
          rfl
        have hpos := c.utf8Size_pos
        rw [hsplit, String.utf8ByteSize_append, String.utf8ByteSize_singleton,
          List.length_cons]
        omega
  rw [← String.length_toList]
  exact (hlist s.toList).trans_eq (by rw [String.ofList_toList])

section Sound

variable (u : Unicode) (query : String) (library : List Item)

/-- The titles whose main part sounds like the query. -/
def alike : List Item :=
  library.filter fun i => skeleton u (mainTitle i.name) = skeleton u query

/-- All titles that sound like the query are the same work. -/
def SameWork : Prop :=
  ∀ i ∈ alike u query library, ∀ j ∈ alike u query library,
    squashed u (mainTitle i.name) = squashed u (mainTitle j.name)

/-- What the sound stage promises: an answer just when the query has at least
three consonants and means one work, and then a first choice of it. -/
def AnswersUnambiguous : Prop :=
  ((∃ item, soundMatch u query library = some item) ↔
    3 ≤ (skeleton u query).length ∧ alike u query library ≠ [] ∧
      SameWork u query library) ∧
  ∀ item, soundMatch u query library = some item →
    item ∈ alike u query library ∧
      ∀ i ∈ alike u query library, matchKey item ≤ matchKey i

variable {u} {query} {library}

theorem sameWork_iff_first {first : Item} {rest : List Item}
    (h : alike u query library = first :: rest) :
    SameWork u query library ↔
      ((alike u query library).all fun i =>
        squashed u (mainTitle i.name) =
          squashed u (mainTitle first.name)) = true := by
  rw [List.all_eq_true]
  simp only [decide_eq_true_iff]
  constructor
  · intro hsame i hi
    exact hsame i hi first (h ▸ List.mem_cons_self)
  · intro hfirst i hi j hj
    rw [hfirst i hi, hfirst j hj]

theorem soundMatch_eq_some_iff (item : Item) :
    soundMatch u query library = some item ↔
      3 ≤ (skeleton u query).utf8ByteSize ∧ SameWork u query library ∧
        (alike u query library).argmin matchKey = some item := by
  rw [soundMatch]
  split
  · rename_i hshort
    exact iff_of_false nofun fun h => absurd h.1 (Nat.not_le.mpr hshort)
  · rename_i hlong
    rw [and_iff_right (Nat.not_lt.mp hlong)]
    show ((alike u query library).head?.bind fun first =>
        if ((alike u query library).all fun i =>
          squashed u (mainTitle i.name) =
            squashed u (mainTitle first.name)) = true then
          (alike u query library).argmin matchKey
        else none) = some item ↔ _
    rcases halike : alike u query library with _ | ⟨first, rest⟩
    · exact iff_of_false nofun fun h => by cases h.2
    · rw [sameWork_iff_first halike, halike, List.head?_cons, Option.bind_some]
      split
      · rename_i hsame
        exact (and_iff_right hsame).symm
      · rename_i hother
        exact iff_of_false nofun fun h => hother h.1

theorem exists_soundMatch_iff :
    (∃ item, soundMatch u query library = some item) ↔
      3 ≤ (skeleton u query).utf8ByteSize ∧ alike u query library ≠ [] ∧
        SameWork u query library := by
  simp only [soundMatch_eq_some_iff, exists_and_left]
  rw [and_comm (a := alike u query library ≠ []),
    ← Option.ne_none_iff_exists', Ne, List.argmin_eq_none]

/-- The stage keeps its promise unless it counts the bytes of one or two
characters as three and the titles with these mean one work. -/
theorem soundMatch_answers_iff :
    AnswersUnambiguous u query library ↔
      3 ≤ (skeleton u query).length ∨ (skeleton u query).utf8ByteSize < 3 ∨
        alike u query library = [] ∨ ¬SameWork u query library := by
  have hchosen : ∀ item, soundMatch u query library = some item →
      item ∈ alike u query library ∧
        ∀ i ∈ alike u query library, matchKey item ≤ matchKey i := by
    intro item hitem
    have hargmin := ((soundMatch_eq_some_iff item).mp hitem).2.2
    exact ⟨List.argmin_mem hargmin,
      fun i hi => List.le_of_mem_argmin hi hargmin⟩
  rw [AnswersUnambiguous, and_iff_left hchosen, exists_soundMatch_iff]
  have hbytes := length_le_utf8ByteSize (skeleton u query)
  constructor
  · intro h
    by_contra hnone
    simp only [not_or, not_not] at hnone
    have hchars := (h.mp ⟨Nat.not_lt.mp hnone.2.1, hnone.2.2⟩).1
    exact hnone.1 hchars
  · rintro (hchars | hshort | hnone | hother)
    · exact and_congr_left fun _ => iff_of_true (hchars.trans hbytes) hchars
    · refine and_congr_left fun _ => iff_of_false ?_ ?_
      · exact Nat.not_le.mpr hshort
      · exact Nat.not_le.mpr (hbytes.trans_lt hshort)
    · exact iff_of_false (fun h => h.2.1 hnone) fun h => h.2.1 hnone
    · exact iff_of_false (fun h => hother h.2.2) fun h => hother h.2.2

end Sound

theorem soundMatch_two_ideographs :
    ¬AnswersUnambiguous .asciiHan "英雄"
      [⟨"s1", "英雄", "Series", some 2002, false⟩] := by
  intro hanswers
  have hfound : soundMatch .asciiHan "英雄"
      [⟨"s1", "英雄", "Series", some 2002, false⟩] =
        some ⟨"s1", "英雄", "Series", some 2002, false⟩ := by decide
  have hchars := (hanswers.1.mp ⟨_, hfound⟩).1
  exact absurd hchars (by decide)

end AssistantHub.SoundMatches
