import AssistantHub.MediaDocs
import Mathlib.Data.List.Infix

namespace AssistantHub.DocumentEntries

open IndexStore JsonValue MediaDocs RustText

def separator : List Char := " | text: ".toList

theorem no_border : ∀ n, 1 ≤ n → n ≤ 7 →
    separator.drop n ≠ separator.take (9 - n) := by
  intro n hone hseven
  obtain rfl | rfl | rfl | rfl | rfl | rfl | rfl :
      n = 1 ∨ n = 2 ∨ n = 3 ∨ n = 4 ∨ n = 5 ∨ n = 6 ∨ n = 7 := by omega
  all_goals decide

/-- A separator that starts inside of another one does not start the text
before it anew; only its last space could, before a bar. -/
theorem isInfix_of_shifted {more b b' : List Char} (hmore : more ≠ [])
    (hb : b.head? ≠ some '|')
    (h : separator ++ b = more ++ (separator ++ b')) :
    separator <:+: more := by
  have hpos := List.length_pos_iff.mpr hmore
  have hlength : separator.length = 9 := by decide
  by_cases hlong : 9 ≤ more.length
  · have hmore : more <+: separator ++ b := h ▸ List.prefix_append _ _
    exact (List.prefix_of_prefix_length_le (List.prefix_append separator b)
      hmore (by omega)).isInfix
  · have hdrop := congrArg (List.drop more.length) h
    rw [List.drop_left, List.drop_append_of_le_length (by omega)] at hdrop
    rcases Nat.eq_or_lt_of_le (Nat.le_of_lt_succ (Nat.not_le.mp hlong)) with
      height | hseven
    · have hspace : separator.drop 8 = [' '] := by decide
      rw [height, hspace] at hdrop
      have hbar := congrArg List.head? (List.cons.inj hdrop).2
      exact absurd hbar hb
    · have htake := congrArg (List.take (9 - more.length)) hdrop
      rw [List.take_append_of_le_length, List.take_append_of_le_length] at htake
      · rw [List.take_of_length_le] at htake
        · exact absurd htake (no_border _ hpos (Nat.le_of_lt_succ hseven))
        · rw [List.length_drop]
          omega
      · omega
      · rw [List.length_drop]
        omega

theorem split_at_separator {t t' b b' : List Char}
    (ht : ¬separator <:+: t) (ht' : ¬separator <:+: t')
    (hb : b.head? ≠ some '|') (hb' : b'.head? ≠ some '|')
    (h : t ++ (separator ++ b) = t' ++ (separator ++ b')) :
    t = t' ∧ b = b' := by
  rcases List.append_eq_append_iff.mp h with
    ⟨more, rfl, hrest⟩ | ⟨more, rfl, hrest⟩
  · rcases eq_or_ne more [] with rfl | hmore
    · rw [List.nil_append] at hrest
      exact ⟨(List.append_nil t).symm, List.append_cancel_left hrest⟩
    · have hinside := isInfix_of_shifted hmore hb hrest
      exact absurd (hinside.trans (List.suffix_append t more).isInfix) ht'
  · rcases eq_or_ne more [] with rfl | hmore
    · rw [List.nil_append] at hrest
      exact ⟨List.append_nil t', (List.append_cancel_left hrest).symm⟩
    · have hinside := isInfix_of_shifted hmore hb' hrest
      exact absurd (hinside.trans (List.suffix_append t' more).isInfix) ht

/-- The letters of a whole number. -/
def isNumeral (c : Char) : Bool := c.isDigit || c == '-'

theorem numeral_toString (i : Int) :
    (toString i).toList ≠ [] ∧
      ∀ c ∈ (toString i).toList, isNumeral c = true := by
  have hdigits : ∀ n : Nat, ∀ c ∈ n.repr.toList, isNumeral c = true := by
    intro n c hc
    rw [Nat.toList_repr] at hc
    rw [isNumeral, Nat.isDigit_of_mem_toDigits (by decide) (by decide) hc,
      Bool.true_or]
  rcases i with n | n
  · show n.repr.toList ≠ [] ∧ _
    refine ⟨?_, hdigits n⟩
    rw [Nat.toList_repr]
    exact Nat.toDigits_ne_nil
  · show ("-" ++ (n + 1).repr).toList ≠ [] ∧
      ∀ c ∈ ("-" ++ (n + 1).repr).toList, isNumeral c = true
    rw [String.toList_append]
    refine ⟨List.append_ne_nil_of_left_ne_nil (List.cons_ne_nil '-' []) _, ?_⟩
    intro c hc
    rcases List.mem_append.mp hc with hc | hc
    · rw [List.mem_singleton.mp hc]
      rfl
    · exact hdigits (n + 1) c hc

theorem rest_of_numeral (i : Int) {rest : List Char}
    (hrest : ∀ c ∈ rest.head?, isNumeral c = false) :
    ((toString i).toList ++ rest).dropWhile isNumeral = rest := by
  rw [List.dropWhile_append_of_pos (numeral_toString i).2]
  rcases rest with _ | ⟨c, rest⟩
  · rfl
  · rw [List.dropWhile_cons_of_neg]
    rw [hrest c rfl]
    exact Bool.false_ne_true

theorem dot_notMem_toString (i : Int) : '.' ∉ (toString i).toList := by
  intro hdot
  exact absurd ((numeral_toString i).2 '.' hdot) (by decide)

/-- The end of a list of parts: the last dot, or a dot and a space before the
next part. -/
def PartEnd (tail : List Char) : Prop :=
  ∃ rest, tail = '.' :: rest ∧ ∀ c ∈ rest.head?, c = ' '

theorem joined_parts (first : String) (parts : List String) :
    ∃ tail, PartEnd tail ∧
      (". ".intercalate (first :: parts) ++ ".").toList =
        first.toList ++ tail := by
  rcases parts with _ | ⟨next, parts⟩
  · refine ⟨['.'], ⟨[], rfl, nofun⟩, ?_⟩
    rw [String.intercalate_singleton, String.toList_append]
    rfl
  · refine ⟨'.' :: ' ' :: (". ".intercalate (next :: parts) ++ ".").toList,
      ⟨_, rfl, ?_⟩, ?_⟩
    · rintro c ⟨⟩
      rfl
    · rw [String.intercalate_cons_cons]
      simp only [String.toList_append, List.append_assoc]
      rfl

section Episodes

/-- The number of an episode behind the word "Episode". -/
def numberText : Option Int → List Char
  | some e => ' ' :: (toString e).toList
  | none => []

def seasonText : Option Int → List Char
  | some s => " of season ".toList ++ (toString s).toList
  | none => []

def seriesText (series : String) : List Char :=
  if series = "" then [] else " of ".toList ++ series.toList

theorem episodeWhat_toList (series : String) (item : Value) :
    (episodeWhat series item).toList =
      "Episode".toList ++ (numberText (item.index "IndexNumber").asI64 ++
        (seasonText (item.index "ParentIndexNumber").asI64 ++
          seriesText series)) := by
  have hseries : (if series = "" then "" else s!" of {series}").toList =
      seriesText series := by
    rw [seriesText]
    split
    · rfl
    · exact String.toList_append
  rw [episodeWhat, String.toList_append, String.toList_append,
    String.toList_append, hseries, List.append_assoc, List.append_assoc]
  rcases (item.index "IndexNumber").asI64 with _ | e
  · rcases (item.index "ParentIndexNumber").asI64 with _ | s
    · rfl
    · show _ ++ (_ ++ ((toString " of season " ++ toString s).toList ++ _)) = _
      rw [String.toList_append]
      rfl
  · rcases (item.index "ParentIndexNumber").asI64 with _ | s
    · show _ ++ ((toString " " ++ toString e).toList ++ _) = _
      rw [String.toList_append]
      rfl
    · show _ ++ ((toString " " ++ toString e).toList ++
        ((toString " of season " ++ toString s).toList ++ _)) = _
      rw [String.toList_append, String.toList_append]
      rfl

theorem replaceDots_seriesText (series : String) {tail : List Char}
    (htail : PartEnd tail) :
    (series = "" ∧ ∃ rest,
      replaceDots (seriesText series ++ tail) = '.' :: rest) ∨
    (series ≠ "" ∧ replaceDots (seriesText series ++ tail) =
      " of ".toList ++ replaceDots (series.toList ++ tail)) := by
  rw [seriesText]
  by_cases hseries : series = ""
  · refine Or.inl ⟨hseries, ?_⟩
    obtain ⟨rest, rfl, -⟩ := htail
    rw [if_pos hseries, List.nil_append]
    have hhead := head?_replaceDots ('.' :: rest)
    rcases hdots : replaceDots ('.' :: rest) with _ | ⟨c, rest'⟩
    · rw [hdots] at hhead
      cases hhead
    · rw [hdots] at hhead
      exact ⟨rest', by rw [Option.some.inj hhead]⟩
  · refine Or.inr ⟨hseries, ?_⟩
    have hof : '.' ∉ " of ".toList := by decide
    rw [if_neg hseries, List.append_assoc, replaceDots_append hof]

theorem replaceDots_seasonText (season : Int) (rest : List Char) :
    replaceDots (seasonText (some season) ++ rest) =
      " of season ".toList ++ ((toString season).toList ++
        replaceDots rest) := by
  have hof : '.' ∉ " of season ".toList := by decide +kernel
  show replaceDots (" of season ".toList ++ (toString season).toList ++ rest) = _
  rw [List.append_assoc, replaceDots_append hof,
    replaceDots_append (dot_notMem_toString season)]

theorem replaceDots_numberText (number : Int) (rest : List Char) :
    replaceDots (numberText (some number) ++ rest) =
      ' ' :: ((toString number).toList ++ replaceDots rest) := by
  have hspace : (' ' : Char) ≠ '.' := by decide
  show replaceDots (' ' :: ((toString number).toList ++ rest)) = _
  rw [replaceDots_cons hspace, replaceDots_append (dot_notMem_toString number)]

/-- The name of a series that starts like a season: with the word and a letter
of a number. -/
def likeSeason (series : String) : Bool :=
  "season ".toList.isPrefixOf series.toList &&
    (series.toList.drop 7).head?.any isNumeral

theorem likeSeason_of_isPrefix {series : String} {c : Char}
    (hc : isNumeral c = true)
    (h : "season ".toList ++ [c] <+: series.toList) :
    likeSeason series = true := by
  obtain ⟨more, hmore⟩ := h
  rw [likeSeason, ← hmore]
  simp [hc]

theorem isPrefix_of_series {series s tail : List Char} (htail : PartEnd tail)
    (hs : '.' ∉ s) (h : s <+: replaceDots (series ++ tail)) : s <+: series := by
  have hpre := isPrefix_of_isPrefix_replaceDots hs h
  obtain ⟨more, rfl, -⟩ := htail
  rcases Nat.lt_or_ge series.length s.length with hlt | hle
  · have hdot : series ++ ['.'] <+: s := by
      refine List.prefix_of_prefix_length_le ?_ hpre ?_
      · exact ⟨more, List.append_assoc _ _ _⟩
      · rw [List.length_append]
        exact hlt
    refine absurd (hdot.subset ?_) hs
    exact List.mem_append_right _ (List.mem_singleton_self '.')
  · exact List.prefix_of_prefix_length_le hpre (List.prefix_append _ _) hle

theorem season_ne_series {series : String} {season : Int}
    {tail rest : List Char} (htail : PartEnd tail)
    (hseries : likeSeason series = false)
    (h : replaceDots (seriesText series ++ tail) =
      " of season ".toList ++ ((toString season).toList ++ rest)) : False := by
  rcases replaceDots_seriesText series htail with ⟨-, rest', hdot⟩ | ⟨-, hof⟩
  · rw [hdot] at h
    cases h
  · obtain ⟨hne, hnumeral⟩ := numeral_toString season
    rcases hdigits : (toString season).toList with _ | ⟨c, digits⟩
    · exact hne hdigits
    · have hc := hnumeral c (hdigits ▸ List.mem_cons_self)
      have hsplit : " of season ".toList ++ ((c :: digits) ++ rest) =
          " of ".toList ++ ("season ".toList ++ [c] ++ (digits ++ rest)) := rfl
      rw [hof, hdigits, hsplit] at h
      have hnodot : '.' ∉ "season ".toList ++ [c] := by
        rw [List.mem_append, List.mem_singleton, not_or]
        refine ⟨by decide, ?_⟩
        rintro rfl
        exact absurd hc (by decide)
      have hpre := isPrefix_of_series htail hnodot
        ⟨digits ++ rest, (List.append_cancel_left h).symm⟩
      rw [likeSeason_of_isPrefix hc hpre] at hseries
      cases hseries

/-- What may stand behind the number of an episode or of a season. -/
def AfterNumber (l : List Char) : Prop :=
  (∃ rest, l = '.' :: rest) ∨ ∃ rest, l = ' ' :: 'o' :: rest

theorem AfterNumber.head? {l : List Char} (h : AfterNumber l) :
    ∀ c ∈ l.head?, isNumeral c = false := by
  rcases h with ⟨rest, rfl⟩ | ⟨rest, rfl⟩
  · rintro c ⟨⟩
    rfl
  · rintro c ⟨⟩
    rfl

theorem afterNumber_series (series : String) {tail : List Char}
    (htail : PartEnd tail) :
    AfterNumber (replaceDots (seriesText series ++ tail)) := by
  rcases replaceDots_seriesText series htail with ⟨-, hdot⟩ | ⟨-, hof⟩
  · exact Or.inl hdot
  · rw [hof]
    exact Or.inr ⟨_, rfl⟩

theorem afterNumber_season (season : Option Int) (series : String)
    {tail : List Char} (htail : PartEnd tail) :
    AfterNumber
      (replaceDots (seasonText season ++ (seriesText series ++ tail))) := by
  rcases season with _ | season
  · exact afterNumber_series series htail
  · rw [replaceDots_seasonText]
    exact Or.inr ⟨_, rfl⟩

theorem rest_of_numbers {i i' : Int} {rest rest' : List Char}
    (hrest : AfterNumber rest) (hrest' : AfterNumber rest')
    (h : (toString i).toList ++ rest = (toString i').toList ++ rest') :
    rest = rest' := by
  rw [← rest_of_numeral i hrest.head?, h, rest_of_numeral i' hrest'.head?]

theorem number_ne_rest {i : Int} {rest rest' : List Char}
    (hrest' : AfterNumber rest')
    (h : ' ' :: ((toString i).toList ++ rest) = rest') : False := by
  obtain ⟨hne, hnumeral⟩ := numeral_toString i
  rcases hi : (toString i).toList with _ | ⟨c, digits⟩
  · exact hne hi
  · rw [hi] at h
    have hc := hnumeral c (hi ▸ List.mem_cons_self)
    rcases hrest' with ⟨more, rfl⟩ | ⟨more, rfl⟩
    · exact absurd (List.cons.inj h).1 (by decide)
    · rw [(List.cons.inj (List.cons.inj h).2).1] at hc
      exact absurd hc (by decide)

theorem behind_number {number number' : Option Int} {rest rest' : List Char}
    (hrest : AfterNumber (replaceDots rest))
    (hrest' : AfterNumber (replaceDots rest'))
    (h : replaceDots (numberText number ++ rest) =
      replaceDots (numberText number' ++ rest')) :
    replaceDots rest = replaceDots rest' := by
  rcases number with _ | i
  · rcases number' with _ | i'
    · exact h
    · rw [replaceDots_numberText] at h
      exact (number_ne_rest hrest h.symm).elim
  · rcases number' with _ | i'
    · rw [replaceDots_numberText] at h
      exact (number_ne_rest hrest' h).elim
    · rw [replaceDots_numberText, replaceDots_numberText] at h
      exact rest_of_numbers hrest hrest' (List.cons.inj h).2

theorem behind_season {season season' : Option Int} {series series' : String}
    {tail tail' : List Char} (htail : PartEnd tail) (htail' : PartEnd tail')
    (hseries : likeSeason series = false)
    (hseries' : likeSeason series' = false)
    (h : replaceDots (seasonText season ++ (seriesText series ++ tail)) =
      replaceDots (seasonText season' ++ (seriesText series' ++ tail'))) :
    replaceDots (seriesText series ++ tail) =
      replaceDots (seriesText series' ++ tail') := by
  rcases season with _ | s
  · rcases season' with _ | s'
    · exact h
    · rw [replaceDots_seasonText] at h
      exact (season_ne_series htail hseries h).elim
  · rcases season' with _ | s'
    · rw [replaceDots_seasonText] at h
      exact (season_ne_series htail' hseries' h.symm).elim
    · rw [replaceDots_seasonText, replaceDots_seasonText] at h
      exact rest_of_numbers (afterNumber_series series htail)
        (afterNumber_series series' htail') (List.append_cancel_left h)

/-- In equal texts a series goes on as a longer one only with a dot or a space,
while equal titles make it go on with a colon. -/
theorem not_longer_series {s m tail tail' : List Char} (htail : PartEnd tail)
    (h : replaceDots (s ++ tail) = replaceDots (s ++ (':' :: m) ++ tail')) :
    False := by
  obtain ⟨rest, rfl, hrest⟩ := htail
  obtain ⟨kept, last, hlast, hkept⟩ := replaceDots_append_eq s
  rw [List.append_assoc, hkept, hkept] at h
  have h := List.append_cancel_left h
  rcases hlast with rfl | rfl
  · have hhead := congrArg List.head? h
    rw [head?_replaceDots, head?_replaceDots] at hhead
    exact absurd (Option.some.inj hhead) (by decide)
  · have hcolon : (':' : Char) ≠ '.' := by decide
    have hdots : '.' :: replaceDots rest =
        '.' :: ':' :: replaceDots (m ++ tail') :=
      h.trans (replaceDots_dot_cons hcolon _)
    have hhead := congrArg List.head? (List.cons.inj hdots).2
    rw [head?_replaceDots] at hhead
    exact absurd (hrest ':' hhead) (by decide)

theorem same_series_of_colon {s s' n n' tail tail' : List Char}
    (htail : PartEnd tail) (htail' : PartEnd tail')
    (htitle : s ++ ": ".toList ++ n = s' ++ ": ".toList ++ n')
    (h : replaceDots (s ++ tail) = replaceDots (s' ++ tail')) : s = s' := by
  rw [List.append_assoc, List.append_assoc] at htitle
  rcases List.append_eq_append_iff.mp htitle with
    ⟨more, rfl, hmore⟩ | ⟨more, rfl, hmore⟩
  · rcases more with _ | ⟨c, more⟩
    · exact (List.append_nil s).symm
    · obtain rfl : ':' = c := (List.cons.inj hmore).1
      exact (not_longer_series htail h).elim
  · rcases more with _ | ⟨c, more⟩
    · exact List.append_nil s'
    · obtain rfl : ':' = c := (List.cons.inj hmore).1
      exact (not_longer_series htail' h.symm).elim

def episodeTitle (series name : String) : String :=
  if series = "" then name else s!"{series}: {name}"

theorem same_series {series series' name name' : String}
    {tail tail' : List Char} (htail : PartEnd tail) (htail' : PartEnd tail')
    (htitle : episodeTitle series name = episodeTitle series' name')
    (h : replaceDots (seriesText series ++ tail) =
      replaceDots (seriesText series' ++ tail')) :
    series = series' ∧ name = name' := by
  rcases replaceDots_seriesText series htail with ⟨hnil, rest, hdot⟩ | ⟨hne, hof⟩
  · rcases replaceDots_seriesText series' htail' with ⟨hnil', -⟩ | ⟨-, hof'⟩
    · rw [episodeTitle, episodeTitle, if_pos hnil, if_pos hnil'] at htitle
      exact ⟨hnil.trans hnil'.symm, htitle⟩
    · rw [hdot, hof'] at h
      exact absurd (List.cons.inj h).1 (by decide)
  · rcases replaceDots_seriesText series' htail' with ⟨-, rest', hdot'⟩ | ⟨hne', hof'⟩
    · rw [hof, hdot'] at h
      exact absurd (List.cons.inj h).1 (by decide)
    · rw [hof, hof'] at h
      rw [episodeTitle, episodeTitle, if_neg hne, if_neg hne'] at htitle
      have htitle : series ++ ": " ++ name = series' ++ ": " ++ name' := htitle
      have hlist := congrArg String.toList htitle
      simp only [String.toList_append] at hlist
      have hseries : series = series' := String.toList_inj.mp
        (same_series_of_colon htail htail' hlist (List.append_cancel_left h))
      rw [hseries] at hlist
      exact ⟨hseries, String.toList_inj.mp (List.append_cancel_left hlist)⟩

/-- The text of an episode tells its series and its name, whatever its numbers
and its overview are. -/
theorem same_episode {series series' name name' : String}
    {number number' season season' : Option Int} {tail tail' : List Char}
    (htail : PartEnd tail) (htail' : PartEnd tail')
    (hseries : likeSeason series = false)
    (hseries' : likeSeason series' = false)
    (htitle : episodeTitle series name = episodeTitle series' name')
    (h : replaceDots (numberText number ++
        (seasonText season ++ (seriesText series ++ tail))) =
      replaceDots (numberText number' ++
        (seasonText season' ++ (seriesText series' ++ tail')))) :
    series = series' ∧ name = name' := by
  have hseason := behind_number (afterNumber_season season series htail)
    (afterNumber_season season' series' htail') h
  exact same_series htail htail' htitle
    (behind_season htail htail' hseries hseries' hseason)

end Episodes

def seriesOf (item : Value) : String :=
  trim ((item.index "SeriesName").asStr.getD "")

theorem documentHead_episode (name : String) (item : Value) :
    documentHead .episode name item =
      { title := episodeTitle (seriesOf item) name
        parts := [episodeWhat (seriesOf item) item]
        seriesId := (item.index "SeriesId").asStr
        seriesName :=
          if seriesOf item = "" then none else some (seriesOf item) } :=
  rfl

theorem title_documentHead (name : String) (item : Value) :
    (documentHead .episode name item).title =
      episodeTitle (seriesOf item) name := by
  rw [documentHead_episode]

def overviewParts (item : Value) : List String :=
  let overview := cut ((item.index "Overview").asStr.getD "") OVERVIEW_CHARS
  if overview = "" then [] else [overview]

def bodyParts (kind : Kind) (name : String) (item : Value) : List String :=
  (documentHead kind name item).parts ++ overviewParts item

/-- What follows the title in the text of a document. -/
def bodyText (kind : Kind) (name : String) (item : Value) : List Char :=
  replaceDots (". ".intercalate (bodyParts kind name item) ++ ".").toList

theorem embeddedText_toList (kind : Kind) (name : String) (item : Value) :
    (embeddedText kind name item).toList =
      "title: ".toList ++ ((documentHead kind name item).title.toList ++
        (separator ++ bodyText kind name item)) := by
  show ("title: " ++ (documentHead kind name item).title ++ " | text: " ++
    String.ofList (bodyText kind name item)).toList = _
  simp only [String.toList_append, List.append_assoc, String.toList_ofList]
  rfl

/-- The letter that the body of a document starts with. -/
def kindLetter : Kind → Char
  | .series => 'S'
  | .movie => 'M'
  | .episode => 'E'

theorem kindLetter_injective {k k' : Kind} (h : kindLetter k = kindLetter k') :
    k = k' := by
  rcases k with _ | _ | _ <;> rcases k' with _ | _ | _ <;>
    first | rfl | exact absurd h (by decide)

theorem workParts_first (what name : String) (item : Value) :
    ∃ behind parts, workParts what name item = (what ++ behind) :: parts := by
  rw [workParts]
  rcases (item.index "ProductionYear").asI64 with _ | y
  · exact ⟨"", _, by rw [String.append_empty]; rfl⟩
  · exact ⟨", " ++ toString y, _, by rw [← String.append_assoc]; rfl⟩

theorem bodyParts_episode (name : String) (item : Value) :
    bodyParts .episode name item =
      episodeWhat (seriesOf item) item :: overviewParts item := by
  rw [bodyParts, documentHead_episode]
  exact List.singleton_append

theorem bodyParts_first (kind : Kind) (name : String) (item : Value) :
    ∃ first parts, bodyParts kind name item = first :: parts ∧
      first.toList.head? = some (kindLetter kind) := by
  have hwork : ∀ what letter, what.toList.head? = some letter →
      ∃ first parts, workParts what name item = first :: parts ∧
        first.toList.head? = some letter := by
    intro what letter hletter
    obtain ⟨behind, parts, hparts⟩ := workParts_first what name item
    refine ⟨_, parts, hparts, ?_⟩
    rw [String.toList_append, List.head?_append, hletter]
    rfl
  rcases kind with _ | _ | _
  · obtain ⟨first, parts, hparts, hfirst⟩ := hwork "Series" (kindLetter .series) rfl
    refine ⟨first, parts ++ overviewParts item, ?_, hfirst⟩
    show workParts "Series" name item ++ overviewParts item = _
    rw [hparts]
    rfl
  · obtain ⟨first, parts, hparts, hfirst⟩ := hwork "Movie" (kindLetter .movie) rfl
    refine ⟨first, parts ++ overviewParts item, ?_, hfirst⟩
    show workParts "Movie" name item ++ overviewParts item = _
    rw [hparts]
    rfl
  · refine ⟨_, _, bodyParts_episode name item, ?_⟩
    rw [episodeWhat_toList]
    rfl

theorem head?_bodyText (kind : Kind) (name : String) (item : Value) :
    (bodyText kind name item).head? = some (kindLetter kind) := by
  obtain ⟨first, parts, hparts, hfirst⟩ := bodyParts_first kind name item
  obtain ⟨tail, -, htail⟩ := joined_parts first parts
  rw [bodyText, head?_replaceDots, hparts, htail, List.head?_append, hfirst]
  rfl

theorem head?_bodyText_ne_bar (kind : Kind) (name : String) (item : Value) :
    (bodyText kind name item).head? ≠ some '|' := by
  rw [head?_bodyText]
  rcases kind with _ | _ | _
  all_goals decide

theorem bodyText_episode (name : String) (item : Value) :
    ∃ tail, PartEnd tail ∧ bodyText .episode name item =
      "Episode".toList ++ replaceDots
        (numberText (item.index "IndexNumber").asI64 ++
          (seasonText (item.index "ParentIndexNumber").asI64 ++
            (seriesText (seriesOf item) ++ tail))) := by
  obtain ⟨tail, htail, hjoined⟩ :=
    joined_parts (episodeWhat (seriesOf item) item) (overviewParts item)
  refine ⟨tail, htail, ?_⟩
  have hepisode : '.' ∉ "Episode".toList := by decide
  rw [bodyText, bodyParts_episode, hjoined, episodeWhat_toList]
  simp only [List.append_assoc]
  rw [replaceDots_append hepisode]

theorem not_season_of_seriesName {item : Value} {name : String}
    (h : ∀ s ∈ (documentHead .episode name item).seriesName,
      likeSeason s = false) :
    likeSeason (seriesOf item) = false := by
  rw [documentHead_episode] at h
  by_cases hseries : seriesOf item = ""
  · rw [hseries]
    decide
  · rw [if_neg hseries] at h
    exact h (seriesOf item) rfl

/-- Where the name of a series does not look like a season, the title and the
body tell the name of an item and of its series. -/
theorem same_names {kind : Kind} {name name' : String} {a b : Value}
    (hseries : ∀ s ∈ (documentHead kind name a).seriesName,
      likeSeason s = false)
    (hseries' : ∀ s ∈ (documentHead kind name' b).seriesName,
      likeSeason s = false)
    (htitle : (documentHead kind name a).title =
      (documentHead kind name' b).title)
    (hbody : bodyText kind name a = bodyText kind name' b) :
    name = name' ∧ (documentHead kind name a).seriesName =
      (documentHead kind name' b).seriesName := by
  rcases kind with _ | _ | _
  · exact ⟨htitle, rfl⟩
  · exact ⟨htitle, rfl⟩
  · obtain ⟨tail, htail, ha⟩ := bodyText_episode name a
    obtain ⟨tail', htail', hb⟩ := bodyText_episode name' b
    rw [ha, hb] at hbody
    have hbody := List.append_cancel_left hbody
    have hseason := not_season_of_seriesName hseries
    have hseason' := not_season_of_seriesName hseries'
    rw [title_documentHead, title_documentHead] at htitle
    obtain ⟨hsame, hname⟩ :=
      same_episode htail htail' hseason hseason' htitle hbody
    refine ⟨hname, ?_⟩
    rw [documentHead_episode, documentHead_episode, hsame]

theorem document_head {item : Value} {d : Doc} (h : document item = some d) :
    d.text = embeddedText d.entry.kind d.entry.name item ∧
      d.entry.seriesId =
        (documentHead d.entry.kind d.entry.name item).seriesId ∧
      d.entry.seriesName =
        (documentHead d.entry.kind d.entry.name item).seriesName := by
  obtain ⟨kind, -, h⟩ := Option.bind_eq_some_iff.mp h
  obtain ⟨id, -, h⟩ := Option.bind_eq_some_iff.mp h
  obtain ⟨name, -, rfl⟩ := Option.map_eq_some_iff.mp h
  exact ⟨rfl, rfl, rfl⟩

/-- Two documents of one item between which the text does not change. -/
structure SameText (a b : Value) (d e : Doc) : Prop where
  old : document a = some d
  new : document b = some e
  id : (a.index "Id").asStr = (b.index "Id").asStr
  text : d.text = e.text

theorem sameText_get {a b : Value} (ha : (document a).isSome)
    (hb : (document b).isSome) (hid : (a.index "Id").asStr = (b.index "Id").asStr)
    (htext : ((document a).get ha).text = ((document b).get hb).text) :
    SameText a b ((document a).get ha) ((document b).get hb) :=
  ⟨(Option.some_get ha).symm, (Option.some_get hb).symm, hid, htext⟩

/-- A document whose text can be read back: neither its title nor the name of
its series looks like another part of the text. -/
structure Legible (item : Value) (d : Doc) : Prop where
  title : ¬separator <:+:
    (documentHead d.entry.kind d.entry.name item).title.toList
  series : ∀ s ∈ d.entry.seriesName, likeSeason s = false

namespace SameText

variable {a b : Value} {d e : Doc}

theorem entry_id (h : SameText a b d e) : d.entry.id = e.entry.id := by
  have hid := h.id
  rw [id_document h.old, id_document h.new] at hid
  exact Option.some.inj hid

theorem entry_hash (h : SameText a b d e) : d.entry.hash = e.entry.hash := by
  rw [hash_document h.old, hash_document h.new, h.text]

theorem title_body (h : SameText a b d e) (hd : Legible a d)
    (he : Legible b e) :
    (documentHead d.entry.kind d.entry.name a).title =
        (documentHead e.entry.kind e.entry.name b).title ∧
      bodyText d.entry.kind d.entry.name a =
        bodyText e.entry.kind e.entry.name b := by
  have htext := h.text
  rw [(document_head h.old).1, (document_head h.new).1] at htext
  have hlist := congrArg String.toList htext
  rw [embeddedText_toList, embeddedText_toList] at hlist
  obtain ⟨htitle, hbody⟩ := split_at_separator hd.title he.title
    (head?_bodyText_ne_bar _ _ _) (head?_bodyText_ne_bar _ _ _)
    (List.append_cancel_left hlist)
  exact ⟨String.toList_inj.mp htitle, hbody⟩

theorem entry_kind (h : SameText a b d e) (hd : Legible a d)
    (he : Legible b e) : d.entry.kind = e.entry.kind := by
  have hhead := congrArg List.head? (h.title_body hd he).2
  rw [head?_bodyText, head?_bodyText] at hhead
  exact kindLetter_injective (Option.some.inj hhead)

theorem entry_names (h : SameText a b d e) (hd : Legible a d)
    (he : Legible b e) :
    d.entry.name = e.entry.name ∧ d.entry.seriesName = e.entry.seriesName := by
  obtain ⟨htitle, hbody⟩ := h.title_body hd he
  obtain ⟨-, -, hname⟩ := document_head h.old
  obtain ⟨-, -, hname'⟩ := document_head h.new
  have hseason := hd.series
  have hseason' := he.series
  rw [hname] at hseason ⊢
  rw [hname'] at hseason' ⊢
  rw [← h.entry_kind hd he] at htitle hbody hseason' ⊢
  exact same_names hseason hseason' htitle hbody

end SameText

theorem same_seriesId_iff {kind : Kind} (name : String) {a b : Value} :
    (documentHead kind name a).seriesId = (documentHead kind name b).seriesId ↔
      (kind = .episode →
        (a.index "SeriesId").asStr = (b.index "SeriesId").asStr) := by
  rcases kind with _ | _ | _
  · simp [documentHead]
  · simp [documentHead]
  · simp [documentHead]

/-- The text of a document tells every field of its entry but the ID of the
series, which is not part of it. -/
theorem entry_of_same_text {a b : Value} {d e : Doc} (h : SameText a b d e)
    (hd : Legible a d) (he : Legible b e) :
    d.entry = { e.entry with seriesId := d.entry.seriesId } ∧
      (d.entry = e.entry ↔ (d.entry.kind = .episode →
        (a.index "SeriesId").asStr = (b.index "SeriesId").asStr)) := by
  have hkind := h.entry_kind hd he
  obtain ⟨hname, hseriesName⟩ := h.entry_names hd he
  have hfields : d.entry = { e.entry with seriesId := d.entry.seriesId } := by
    show d.entry = ⟨e.entry.id, e.entry.kind, e.entry.name, d.entry.seriesId,
      e.entry.seriesName, e.entry.hash⟩
    rw [← h.entry_id, ← hkind, ← hname, ← hseriesName, ← h.entry_hash]
  refine ⟨hfields, ?_⟩
  obtain ⟨-, hseriesId, -⟩ := document_head h.old
  obtain ⟨-, hseriesId', -⟩ := document_head h.new
  rw [← same_seriesId_iff d.entry.name, ← hseriesId, hkind, hname,
    ← hseriesId']
  constructor
  · intro hentry
    rw [hentry]
  · intro hseries
    rw [hfields, hseries]

/-- An episode without numbers. -/
def pilot (seriesId overview : String) : Value :=
  .object [("Type", .string "Episode"), ("Id", .string "e1"),
    ("Name", .string "Pilot"), ("SeriesName", .string "Silo"),
    ("SeriesId", .string seriesId), ("Overview", .string overview)]

theorem same_pilot :
    ∃ d e, SameText (pilot "s1" "Soon.") (pilot "s1" " Soon.") d e ∧
      d.entry = e.entry := by
  refine ⟨_, _, sameText_get (by decide) (by decide) rfl (by decide +kernel),
    (entry_of_same_text (sameText_get (by decide) (by decide) rfl
      (by decide +kernel)) ⟨?_, ?_⟩ ⟨?_, ?_⟩).2.mpr fun _ => rfl⟩
  all_goals decide +kernel

/-- An episode that moves to another series of the same name, a name with the
separator in it, and a series that is called like a season. -/
theorem same_text_other_entries :
    (∃ a b d e, SameText a b d e ∧ d.entry.seriesId ≠ e.entry.seriesId) ∧
    (∃ a b d e, SameText a b d e ∧ d.entry.kind ≠ e.entry.kind) ∧
    ∃ a b d e, SameText a b d e ∧ d.entry.name ≠ e.entry.name := by
  refine ⟨⟨pilot "s1" "Soon.", pilot "s2" "Soon.", _, _,
      sameText_get (by decide) (by decide) rfl (by decide +kernel), ?_⟩,
    ⟨pilot "s1" "foo | text: Movie", .object [("Type", .string "Movie"),
      ("Id", .string "e1"),
      ("Name", .string "Silo: Pilot | text: Episode of Silo. foo")], _, _,
      sameText_get (by decide) (by decide) rfl (by decide +kernel), ?_⟩,
    ⟨.object [("Type", .string "Episode"), ("Id", .string "e1"),
      ("Name", .string "season 2: Pilot"),
      ("ParentIndexNumber", .number (.posInt 2))],
     .object [("Type", .string "Episode"), ("Id", .string "e1"),
      ("Name", .string "Pilot"), ("SeriesName", .string "season 2")], _, _,
      sameText_get (by decide) (by decide) rfl (by decide +kernel), ?_⟩⟩
  all_goals decide +kernel

end AssistantHub.DocumentEntries
