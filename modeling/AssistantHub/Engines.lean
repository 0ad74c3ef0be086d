import AssistantHub.ChildRuns
import AssistantHub.RustText
import AssistantHub.Streaks

namespace AssistantHub.Engines

open AssistantHub.ChildRuns
open AssistantHub.RustText
open AssistantHub.Streaks

inductive EngineKind where
  | llamaCpp
  | ik
  deriving DecidableEq, Repr

inductive EngineChoice where
  | auto
  | llamaCpp
  | ik
  deriving DecidableEq, Repr

inductive Family where
  | ling3
  | minicpm5
  | lfm3
  | qwen35
  | granite4
  deriving DecidableEq, Repr

/-- The architectures that ik_llama.cpp is verified for. -/
def ikArchitectures : Family → List String
  | .ling3 => ["bailingmoe3"]
  | .minicpm5 => ["llama"]
  | .lfm3 => ["lfm3"]
  | .qwen35 | .granite4 => []

/-- What the choice depends on. `architecture` is that of the model file, none
if there is no readable file. -/
structure Facts where
  choice : EngineChoice
  device : String
  family : Family
  architecture : Option String
  modelOnDisk : Bool
  downloadDone : Bool
  cpuAvx2Fma : Bool
  ikBinary : Bool
  ikBanned : Bool

structure Decision where
  kind : EngineKind
  reason : String
  downloadFirst : Bool
  deriving DecidableEq

def llamacpp (reason : String) : Decision :=
  { kind := .llamaCpp, reason := reason, downloadFirst := false }

def Facts.wanted (f : Facts) : Decision :=
  { kind := .ik
    reason :=
      if f.choice = .ik then "LLM_ENGINE=ik"
      else "the CPU runs the model and ik_llama.cpp reads the prompt faster"
    downloadFirst := false }

/-- llama.cpp runs only to download the model. -/
def Facts.download (f : Facts) : Decision :=
  { kind := .llamaCpp
    reason := f.wanted.reason ++ "; llama.cpp downloads the model first"
    downloadFirst := true }

/-- The end of `decide` for a model file that is there. -/
def Facts.verify (f : Facts) : Decision :=
  if f.choice = .auto then
    match f.architecture with
    | some a =>
        if a ∈ ikArchitectures f.family then f.wanted
        else llamacpp ("ik_llama.cpp is not verified for the architecture " ++ a)
    | none => llamacpp "the architecture of the model file is unknown"
  else f.wanted

def Facts.decide (f : Facts) : Decision :=
  if f.choice = .llamaCpp then llamacpp "LLM_ENGINE=llamacpp"
  else if f.device ≠ "none" then
    llamacpp "the model runs on a GPU, and ik_llama.cpp runs on the CPU only"
  else if f.ikBinary = false then llamacpp "this image has no ik_llama.cpp"
  else if f.cpuAvx2Fma = false then
    llamacpp "the CPU lacks AVX2 or FMA, which ik_llama.cpp needs"
  else if f.ikBanned then llamacpp "ik_llama.cpp failed to start twice"
  else if f.choice = .auto ∧ ikArchitectures f.family = [] then
    llamacpp "ik_llama.cpp is not verified for this model family"
  else if f.modelOnDisk = false then
    if f.downloadDone then
      -- Another download-first start would end at its first good answer again.
      llamacpp
        ("the hub does not find the downloaded model file in the cache, " ++
          "give the quantization in LLM_HF_REPO (repo:tag) or a file in " ++
          "LLM_MODEL_FILENAME")
    else f.download
  else f.verify

def GOOD_RUN : Nat := secs 120

def MAX_FAILURES : Nat := 2

structure Chooser where
  failures : Nat
  banned : Bool

def Chooser.new : Chooser := { failures := 0, banned := false }

/-- A run of two minutes or more that answered. -/
def good (o : RunOutcome) : Bool := o.healthy && decide (o.ran ≥ GOOD_RUN)

def failed (o : RunOutcome) : Bool := !good o

/-- Records how the last run of `kind` ended. -/
def Chooser.note (kind : EngineKind) (outcome : Option RunOutcome)
    (c : Chooser) : Chooser :=
  match outcome with
  | none => c
  | some o =>
      if kind ≠ .ik ∨ o.ended = .replaced then c
      else if good o then { c with failures := 0 }
      else
        { failures := c.failures + 1
          banned := c.banned || decide (c.failures + 1 ≥ MAX_FAILURES) }

/-- True if the `flags` line of /proc/cpuinfo has avx2 and fma. -/
def hasAvx2Fma (cpuinfo : String) : Bool :=
  match (lines cpuinfo).find? fun l => "flags".toList.isPrefixOf l.toList with
  | some l => (splitWhitespace l).contains "avx2" && (splitWhitespace l).contains "fma"
  | none => false

example : hasAvx2Fma "processor : 0\nflags : sse2 avx2 fma\n" = true := by decide

theorem verify_cases (f : Facts) :
    (∃ reason, f.verify = llamacpp reason) ∨ f.verify = f.wanted := by
  rw [Facts.verify]
  split
  · split
    · split
      · exact Or.inr rfl
      · exact Or.inl ⟨_, rfl⟩
    · exact Or.inl ⟨_, rfl⟩
  · exact Or.inr rfl

/-- The three kinds of decisions, with what the two that lead to ik_llama.cpp
need. -/
theorem decide_cases (f : Facts) :
    (∃ reason, f.decide = llamacpp reason) ∨
      (f.decide = f.download ∧ f.ikBanned = false ∧ f.modelOnDisk = false ∧
        f.downloadDone = false) ∨
      (f.decide = f.wanted ∧ f.ikBanned = false ∧ f.modelOnDisk = true) := by
  rw [Facts.decide]
  split
  · exact Or.inl ⟨_, rfl⟩
  split
  · exact Or.inl ⟨_, rfl⟩
  split
  · exact Or.inl ⟨_, rfl⟩
  split
  · exact Or.inl ⟨_, rfl⟩
  split
  · exact Or.inl ⟨_, rfl⟩
  rename_i hbanned
  have hfree : f.ikBanned = false := eq_false_of_ne_true hbanned
  split
  · exact Or.inl ⟨_, rfl⟩
  split
  · rename_i hmissing
    split
    · exact Or.inl ⟨_, rfl⟩
    · rename_i hdone
      exact Or.inr (Or.inl
        ⟨rfl, hfree, hmissing, eq_false_of_ne_true hdone⟩)
  · rename_i hpresent
    rcases verify_cases f with hllama | hwanted
    · exact Or.inl hllama
    · exact Or.inr (Or.inr ⟨hwanted, hfree, eq_true_of_ne_false hpresent⟩)

theorem decide_of_banned {f : Facts} (h : f.ikBanned = true) :
    f.decide.kind = .llamaCpp ∧ f.decide.downloadFirst = false := by
  rcases decide_cases f with ⟨reason, hdecide⟩ | ⟨-, hfree, -⟩ | ⟨-, hfree, -⟩
  · rw [hdecide]
    exact ⟨rfl, rfl⟩
  · rw [h] at hfree
    cases hfree
  · rw [h] at hfree
    cases hfree

/-- A download comes first only on llama.cpp, and before one is done. -/
theorem of_downloadFirst {f : Facts} (h : f.decide.downloadFirst = true) :
    f.decide.kind = .llamaCpp ∧ f.downloadDone = false := by
  rcases decide_cases f with ⟨reason, hdecide⟩ | ⟨hdecide, -, -, hdone⟩ |
    ⟨hdecide, -⟩
  · rw [hdecide] at h
    cases h
  · rw [hdecide]
    exact ⟨rfl, hdone⟩
  · rw [hdecide] at h
    cases h

theorem modelOnDisk_of_ik {f : Facts} (h : f.decide.kind = .ik) :
    f.modelOnDisk = true := by
  rcases decide_cases f with ⟨reason, hdecide⟩ | ⟨hdecide, -⟩ | ⟨-, -, hmodel⟩
  · rw [hdecide] at h
    cases h
  · rw [hdecide] at h
    cases h
  · exact hmodel

/-- The runs of ik_llama.cpp that count. -/
def counted (kind : EngineKind) (o : RunOutcome) : Bool :=
  decide (kind = .ik ∧ o.ended ≠ .replaced)

theorem note_of_not_counted {kind : EngineKind} {o : RunOutcome}
    (h : counted kind o = false) (c : Chooser) : c.note kind (some o) = c := by
  rw [counted, decide_eq_false_iff_not, not_and_or, not_not] at h
  exact if_pos h

/-- The chooser after some outcomes that count. -/
structure Chooser.Follows (c : Chooser) (outcomes : List RunOutcome) : Prop where
  failures_eq : c.failures = streak failed outcomes
  banned_iff : c.banned = true ↔ HasStreak failed MAX_FAILURES outcomes

theorem Chooser.Follows.new : Chooser.new.Follows [] where
  failures_eq := rfl
  banned_iff :=
    ⟨nofun, fun h => absurd h (not_hasStreak_nil failed 1)⟩

theorem Chooser.Follows.note {c : Chooser} {outcomes : List RunOutcome}
    (h : c.Follows outcomes) {kind : EngineKind} {o : RunOutcome}
    (ho : counted kind o = true) :
    (c.note kind (some o)).Follows (outcomes ++ [o]) := by
  have hcount : ¬(kind ≠ .ik ∨ o.ended = .replaced) := by
    rw [counted, decide_eq_true_eq] at ho
    rintro (hkind | hended)
    · exact hkind ho.1
    · exact ho.2 hended
  rw [Chooser.note]
  simp only [if_neg hcount]
  split
  · rename_i hgood
    have hfailed : failed o = false := by rw [failed, hgood, Bool.not_true]
    refine ⟨?_, ?_⟩
    · rw [streak_concat, hfailed, if_neg Bool.false_ne_true]
    · rw [hasStreak_concat, streak_concat, hfailed, if_neg Bool.false_ne_true,
        h.banned_iff]
      exact ⟨Or.inl, fun hor => hor.resolve_right (by decide)⟩
  · rename_i hgood
    have hfailed : failed o = true := by
      rw [failed, eq_false_of_ne_true hgood, Bool.not_false]
    refine ⟨?_, ?_⟩
    · rw [streak_concat, if_pos hfailed, h.failures_eq]
    · rw [hasStreak_concat, streak_concat, if_pos hfailed, Bool.or_eq_true,
        decide_eq_true_eq, h.banned_iff, h.failures_eq]

end AssistantHub.Engines
