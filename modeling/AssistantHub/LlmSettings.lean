import AssistantHub.CachedModels
import AssistantHub.EnginePlans
import AssistantHub.EpisodeQueries
import AssistantHub.Fallible
import AssistantHub.ProxyRequests

namespace AssistantHub.LlmSettings

open AssistantHub.CachedModels (splitOnce)
open AssistantHub.EnginePlans
open AssistantHub.Engines
open AssistantHub.EpisodeQueries (decimal parseU32 splitWhitespace_eq)
open AssistantHub.Fallible
open AssistantHub.RustText (isWhitespace splitWhitespace)
open AssistantHub.Runs (mem_runs)
open AssistantHub.UnicodeText

/-- The variables of the environment. -/
abbrev Env := String → Option String

def var (env : Env) (name : String) : Option String :=
  (ProxyRequests.var (env name)).map String.ofList

def varOr (env : Env) (name default : String) : String := (var env name).getD default

inductive LlmSource where
  | file (path : String)
  | hfRepo (repo : String)
  deriving DecidableEq

/-- The configuration of the model server, with all its fields. -/
structure Settings extends LlmConfig where
  source : LlmSource
  gpuLayers : String
  reasoning : Bool
  reasoningBudget : String
  maxTokens : Nat
  apiKey : Option String
  extraArgs : List String
  slotCache : Bool
  templateFix : Bool
  hfCacheDir : String
  slotDir : String

/-- A value that is one of some names. -/
def parseNamed {α : Type} (values : List (String × α)) (name expected value : String) :
    Except String α :=
  match values.lookup value with
  | some a => .ok a
  | none => .error s!"unknown {name}={value} (expected {expected})"

def families : List (String × Family) :=
  [("ling3", .ling3), ("minicpm5", .minicpm5), ("lfm3", .lfm3), ("qwen35", .qwen35),
    ("granite4", .granite4)]

def engines : List (String × EngineChoice) :=
  [("auto", .auto), ("llamacpp", .llamaCpp), ("ik", .ik)]

def ctxs : List (String × Ctx) := [("32k", .k32), ("64k", .k64), ("128k", .k128), ("256k", .k256)]

def switch : List (String × Bool) := [("on", true), ("off", false)]

def parseFamily (value : String) : Except String Family :=
  parseNamed families "LLM_FAMILY" "ling3, minicpm5, lfm3, qwen35 or granite4" value

def parseEngine (value : String) : Except String EngineChoice :=
  parseNamed engines "LLM_ENGINE" "auto, llamacpp or ik" value

def parseCtx (value : String) : Except String Ctx :=
  parseNamed ctxs "LLM_CTX" "32k, 64k, 128k or 256k" value

def onOff (env : Env) (name : String) (default : Bool) : Except String Bool :=
  match var env name with
  | none => .ok default
  | some value => parseNamed switch name "on or off" value

/-- Thinking tokens per reply when none are set. -/
def defaultReasoningBudget : Family → String
  | .ling3 | .minicpm5 | .lfm3 => "128"
  | .qwen35 | .granite4 => "512"

/-- The family from a model file or repository name. -/
def detect (u : Unicode) (name : String) : Option Family :=
  let name := u.toLowercase name.toList
  let has : String → Bool := fun part => part.toList <:+: name
  if has "ling-3" then some .ling3
  else if has "minicpm5" then some .minicpm5
  else if has "lfm3-" then some .lfm3
  else if has "qwen3.5" || has "qwen3_5" then some .qwen35
  else if has "granite-4" then some .granite4
  else none

/-- The digits of a `u32`, behind the number so far. -/
def parseDigits : Nat → List Char → Except String Nat
  | n, [] => .ok n
  | n, c :: rest =>
      if !c.isDigit then .error "invalid digit found in string"
      else if n * 10 + (c.toNat - 48) < 2 ^ 32 then parseDigits (n * 10 + (c.toNat - 48)) rest
      else .error "number too large to fit in target type"

/-- `parse::<u32>()` with its errors. -/
def parseNumber (s : List Char) : Except String Nat :=
  match s with
  | [] => .error "cannot parse integer from empty string"
  | c :: rest =>
      if c = '+' ∧ rest ≠ [] then parseDigits 0 rest
      else parseDigits 0 (c :: rest)

def parseNum (env : Env) (name : String) (default : Nat) : Except String Nat :=
  match var env name with
  | none => .ok default
  | some v =>
      match parseNumber v.toList with
      | .ok n => .ok n
      | .error err => .error s!"invalid {name}={v}: {err}"

def stripSuffix (ending s : String) : String :=
  if ending.toList.isSuffixOf s.toList then String.ofList (s.toList.take (s.length - ending.length))
  else s

/-- What stands behind the last separator. -/
def behindLast (separator : Char) (s : List Char) : List Char :=
  s.rtakeWhile fun c => c ≠ separator

/-- `inclusionAI/Ling-3.0-tiny-GGUF:Q4_K_M` becomes `Ling-3.0-tiny-Q4_K_M`. -/
def modelNameFromRepo (repo : String) : String :=
  let repo := behindLast '/' repo.toList
  match splitOnce ':' repo with
  | some (name, tag) =>
      let name := stripSuffix "-GGUF" (String.ofList name)
      let tag := String.ofList tag
      s!"{name}-{tag}"
  | none => stripSuffix "-GGUF" (String.ofList repo)

/-- `dir.join(path)` -/
def join (dir path : String) : String :=
  if path.toList.head? = some '/' then path
  else if dir.toList = [] ∨ dir.toList.getLast? = some '/' then dir ++ path
  else dir ++ "/" ++ path

section FromEnv

variable (u : Unicode) (env : Env)

def familyOf (detectFrom : String) : Except String Family :=
  match var env "LLM_FAMILY" with
  | some value => parseFamily value
  | none => context
      s!"set LLM_FAMILY (ling3, minicpm5, lfm3, qwen35 or granite4) for {detectFrom}"
      (detect u detectFrom)

/-- Ling and LFM3 are the families with the largest context. -/
def checkCtx (family : Family) (ctx : Ctx) : Except String Unit :=
  if ctx = .k256 ∧ family ≠ .ling3 ∧ family ≠ .lfm3 then
    .error "LLM_CTX=256k is only supported for LLM_FAMILY=ling3 or lfm3 (others: max 128k)"
  else .ok ()

/-- The configuration from values that were read. -/
def assemble (source : LlmSource) (defaultName : String) (family : Family) (ctx : Ctx)
    (thinking : Bool) (engine : EngineChoice) (maxTokens : Nat) (slotCache templateFix : Bool) :
    Settings :=
  let llmDir := varOr env "LLM_DIR" "/models/llm"
  { serverBin := varOr env "LLAMA_SERVER" "/opt/llama.cpp/llama-server"
    ikBin := varOr env "IK_LLAMA_SERVER" "/opt/ik_llama.cpp/llama-server"
    engine := engine
    source := source
    modelName := varOr env "LLM_MODEL_NAME" defaultName
    family := family
    device := varOr env "LLM_DEVICE" "none"
    gpuLayers := varOr env "LLM_GPU_LAYERS" "auto"
    ctx := ctx
    reasoning := thinking && family ≠ .granite4
    reasoningBudget := varOr env "LLM_REASONING_BUDGET" (defaultReasoningBudget family)
    maxTokens := maxTokens
    apiKey := var env "LLM_API_KEY"
    extraArgs := ((var env "LLM_EXTRA_ARGS").map splitWhitespace).getD []
    slotCache := slotCache
    templateFix := templateFix
    internalPort := 8081
    hfCacheDir := join llmDir "hf"
    slotDir := join llmDir "slots" }

def settings (source : LlmSource) (defaultName detectFrom : String) : Except String Settings := do
  let family ← familyOf u env detectFrom
  let ctx ← parseCtx (varOr env "LLM_CTX" "64k")
  checkCtx family ctx
  let thinking ← parseNamed switch "LLM_REASONING" "on or off" (varOr env "LLM_REASONING" "on")
  let engine ← parseEngine (varOr env "LLM_ENGINE" "auto")
  let maxTokens ← parseNum env "LLM_MAX_TOKENS" 1024
  let slotCache ← onOff env "LLM_SLOT_CACHE" true
  let templateFix ← onOff env "LLM_TEMPLATE_FIX" true
  .ok (assemble env source defaultName family ctx thinking engine maxTokens slotCache templateFix)

def llmFromEnv : Except String (Option Settings) :=
  match var env "LLM_MODEL_FILENAME", var env "LLM_HF_REPO" with
  | some _, some _ => .error "set LLM_MODEL_FILENAME or LLM_HF_REPO, not both"
  | none, none => .ok none
  | some file, none =>
      (settings u env (.file (join (varOr env "LLM_DIR" "/models/llm") file))
        (stripSuffix ".gguf" file) file).map some
  | none, some repo => (settings u env (.hfRepo repo) (modelNameFromRepo repo) repo).map some

end FromEnv

section Numbers

theorem le_foldl_decimal (s : List Char) (n : Nat) :
    n ≤ s.foldl (fun n c => n * 10 + (c.toNat - 48)) n := by
  induction s generalizing n with
  | nil => exact le_rfl
  | cons c s ih =>
      calc n ≤ n * 10 + (c.toNat - 48) := by omega
        _ ≤ _ := ih _

theorem parseDigits_eq_ok {s : List Char} {n m : Nat} (hn : n < 2 ^ 32) :
    parseDigits n s = .ok m ↔
      s.all Char.isDigit = true ∧ m = s.foldl (fun n c => n * 10 + (c.toNat - 48)) n ∧
        m < 2 ^ 32 := by
  induction s generalizing n with
  | nil =>
      rw [parseDigits]
      constructor
      · intro h
        obtain rfl := Except.ok.inj h
        exact ⟨rfl, rfl, hn⟩
      · rintro ⟨-, rfl, -⟩
        rfl
  | cons c s ih =>
      rw [parseDigits, List.all_cons, Bool.and_eq_true]
      split
      · rename_i hdigit
        rw [Bool.not_eq_true'] at hdigit
        refine iff_of_false nofun ?_
        rintro ⟨⟨hc, -⟩, -⟩
        rw [hdigit] at hc
        exact Bool.false_ne_true hc
      · rename_i hdigit
        rw [Bool.not_eq_true', Bool.not_eq_false] at hdigit
        split
        · rename_i hlt
          rw [ih hlt, List.foldl_cons]
          exact ⟨fun h => ⟨⟨hdigit, h.1⟩, h.2⟩, fun h => ⟨h.1.2, h.2⟩⟩
        · rename_i hlarge
          refine iff_of_false nofun ?_
          rintro ⟨-, rfl, hlt⟩
          rw [List.foldl_cons] at hlt
          exact hlarge (lt_of_le_of_lt (le_foldl_decimal s _) hlt)

theorem parseDigits_eq_ok_iff_decimal {digits : List Char} {n : Nat} (hne : digits ≠ []) :
    parseDigits 0 digits = .ok n ↔
      (if digits.isEmpty || !digits.all Char.isDigit then none
        else if decimal digits < 4294967296 then some (decimal digits) else none) = some n := by
  rw [parseDigits_eq_ok (by decide), List.isEmpty_eq_false_iff.mpr hne, Bool.false_or]
  by_cases hall : digits.all Char.isDigit = true
  · rw [hall, Bool.not_true, if_neg Bool.false_ne_true]
    by_cases hlt : decimal digits < 4294967296
    · rw [if_pos hlt, Option.some.injEq]
      constructor
      · rintro ⟨-, rfl, -⟩
        rfl
      · rintro rfl
        exact ⟨rfl, rfl, hlt⟩
    · rw [if_neg hlt]
      constructor
      · rintro ⟨-, rfl, h⟩
        exact absurd h hlt
      · intro h
        cases h
  · rw [Bool.eq_false_iff.mpr hall, Bool.not_false, if_pos rfl]
    constructor
    · intro h
      exact absurd h.1 Bool.false_ne_true
    · intro h
      cases h

/-- The reader with errors takes the same numbers. -/
theorem parseNumber_eq_ok {s : List Char} {n : Nat} :
    parseNumber s = .ok n ↔ parseU32 (String.ofList s) = some n := by
  rw [parseU32, String.toList_ofList]
  cases s with
  | nil =>
      constructor
      · intro h
        cases h
      · intro h
        cases h
  | cons c rest =>
      rw [parseNumber, List.head?_cons, List.tail_cons]
      by_cases hplus : c = '+'
      · rw [if_pos (congrArg some hplus)]
        by_cases hrest : rest = []
        · rw [if_neg fun h => h.2 hrest, hrest, hplus]
          constructor
          · intro h
            cases h
          · intro h
            cases h
        · rw [if_pos ⟨hplus, hrest⟩]
          exact parseDigits_eq_ok_iff_decimal hrest
      · rw [if_neg fun h => hplus (Option.some.inj h), if_neg fun h => hplus h.1]
        exact parseDigits_eq_ok_iff_decimal (List.cons_ne_nil c rest)

end Numbers

section Accepted

variable {u : Unicode} {env : Env}

theorem parseNamed_eq_ok {α : Type} {values : List (String × α)} {name expected value : String}
    {a : α} : parseNamed values name expected value = .ok a ↔ values.lookup value = some a := by
  rw [parseNamed]
  rcases values.lookup value with _ | b
  · exact iff_of_false nofun nofun
  · constructor
    · intro h
      rw [Except.ok.inj h]
    · intro h
      rw [Option.some.inj h]

theorem exists_lookup_iff {α : Type} {values : List (String × α)} {value : String} :
    (∃ a, values.lookup value = some a) ↔ value ∈ values.map Prod.fst := by
  induction values with
  | nil => exact iff_of_false (fun h => nomatch h) List.not_mem_nil
  | cons p values ih =>
      rw [List.map_cons, List.mem_cons, List.lookup_cons]
      by_cases hp : value = p.1
      · rw [beq_iff_eq.mpr hp]
        exact iff_of_true ⟨p.2, rfl⟩ (Or.inl hp)
      · rw [beq_eq_false_iff_ne.mpr hp]
        exact ih.trans (or_iff_right hp).symm

theorem exists_onOff_iff {name : String} {default : Bool} :
    (∃ b, onOff env name default = .ok b) ↔
      ∀ v, var env name = some v → v ∈ ["on", "off"] := by
  rw [onOff]
  rcases var env name with _ | v
  · exact iff_of_true ⟨default, rfl⟩ nofun
  · simp only [parseNamed_eq_ok, exists_lookup_iff, Option.some.injEq, forall_eq']
    rfl

theorem parseNum_eq_ok {name : String} {default n : Nat} :
    parseNum env name default = .ok n ↔
      var env name = none ∧ n = default ∨
        ∃ v, var env name = some v ∧ parseU32 v = some n := by
  rw [parseNum]
  rcases var env name with _ | v
  · constructor
    · intro h
      exact Or.inl ⟨rfl, (Except.ok.inj h).symm⟩
    · rintro (⟨-, rfl⟩ | ⟨v, hv, -⟩)
      · rfl
      · cases hv
  · have hnumber := @parseNumber_eq_ok v.toList n
    rw [String.ofList_toList] at hnumber
    dsimp only
    constructor
    · intro h
      split at h
      · rename_i m hm
        obtain rfl := Except.ok.inj h
        exact Or.inr ⟨v, rfl, hnumber.mp hm⟩
      · cases h
    · rintro (⟨hv, -⟩ | ⟨w, hw, hn⟩)
      · cases hv
      · obtain rfl := Option.some.inj hw
        rw [hnumber.mpr hn]

theorem checkCtx_eq_ok {family : Family} {ctx : Ctx} :
    checkCtx family ctx = .ok () ↔ (ctx = .k256 → family = .ling3 ∨ family = .lfm3) := by
  rw [checkCtx]
  split
  · rename_i h
    refine iff_of_false nofun ?_
    intro hctx
    exact (hctx h.1).elim h.2.1 h.2.2
  · rename_i h
    refine iff_of_true rfl ?_
    intro hctx
    by_contra hother
    exact h ⟨hctx, not_or.mp hother⟩

theorem settings_eq_ok {source : LlmSource} {defaultName detectFrom : String} {cfg : Settings} :
    settings u env source defaultName detectFrom = .ok cfg ↔
      ∃ family ctx thinking engine maxTokens slotCache templateFix,
        familyOf u env detectFrom = .ok family ∧
        ctxs.lookup (varOr env "LLM_CTX" "64k") = some ctx ∧
        (ctx = .k256 → family = .ling3 ∨ family = .lfm3) ∧
        switch.lookup (varOr env "LLM_REASONING" "on") = some thinking ∧
        engines.lookup (varOr env "LLM_ENGINE" "auto") = some engine ∧
        parseNum env "LLM_MAX_TOKENS" 1024 = .ok maxTokens ∧
        onOff env "LLM_SLOT_CACHE" true = .ok slotCache ∧
        onOff env "LLM_TEMPLATE_FIX" true = .ok templateFix ∧
        cfg = assemble env source defaultName family ctx thinking engine maxTokens slotCache
          templateFix := by
  simp only [settings, parseCtx, parseEngine, bind_eq_ok, parseNamed_eq_ok]
  constructor
  · rintro ⟨family, hfamily, ctx, hctx, _, hcheck, thinking, hthinking, engine, hengine,
      maxTokens, hmax, slotCache, hslot, templateFix, hfix, heq⟩
    exact ⟨family, ctx, thinking, engine, maxTokens, slotCache, templateFix, hfamily, hctx,
      checkCtx_eq_ok.mp hcheck, hthinking, hengine, hmax, hslot, hfix, (Except.ok.inj heq).symm⟩
  · rintro ⟨family, ctx, thinking, engine, maxTokens, slotCache, templateFix, hfamily, hctx,
      hcheck, hthinking, hengine, hmax, hslot, hfix, rfl⟩
    exact ⟨family, hfamily, ctx, hctx, (), checkCtx_eq_ok.mpr hcheck, thinking, hthinking, engine,
      hengine, maxTokens, hmax, slotCache, hslot, templateFix, hfix, rfl⟩

theorem varOr_mem_iff {name default : String} {values : List String} (h : default ∈ values) :
    varOr env name default ∈ values ↔ ∀ v, var env name = some v → v ∈ values := by
  rw [varOr]
  rcases var env name with _ | v
  · exact iff_of_true h nofun
  · simp only [Option.getD_some, Option.some.injEq, forall_eq']

theorem exists_familyOf_iff {name : String} :
    (∃ family, familyOf u env name = .ok family) ↔
      (∀ v, var env "LLM_FAMILY" = some v → v ∈ families.map Prod.fst) ∧
        (var env "LLM_FAMILY" = none → ∃ family, detect u name = some family) := by
  rw [familyOf]
  rcases var env "LLM_FAMILY" with _ | v
  · simp only [context_eq_ok, reduceCtorEq, false_imp_iff, implies_true, true_and, true_imp_iff]
  · simp only [parseFamily, parseNamed_eq_ok, exists_lookup_iff, Option.some.injEq, forall_eq',
      reduceCtorEq, false_imp_iff, and_true]

theorem lookup_ctxs_eq_k256 {v : String} : ctxs.lookup v = some .k256 ↔ v = "256k" := by
  constructor
  · intro h
    simp only [ctxs, List.lookup_cons, List.lookup_nil] at h
    repeat' split at h
    all_goals first | exact beq_iff_eq.mp ‹_› | cases h
  · rintro rfl
    rfl

theorem exists_parseNum_iff {name : String} {default : Nat} :
    (∃ n, parseNum env name default = .ok n) ↔
      ∀ v, var env name = some v → ∃ n, parseU32 v = some n := by
  simp only [parseNum_eq_ok]
  rcases var env name with _ | v
  · exact iff_of_true ⟨default, Or.inl ⟨rfl, rfl⟩⟩ nofun
  · simp only [reduceCtorEq, false_and, Option.some.injEq, false_or, exists_eq_left', forall_eq']

/-- The name of the model, of its file or of its repository. -/
def Named (env : Env) (name : String) : Prop :=
  var env "LLM_MODEL_FILENAME" = some name ∧ var env "LLM_HF_REPO" = none ∨
    var env "LLM_MODEL_FILENAME" = none ∧ var env "LLM_HF_REPO" = some name

/-- An environment that names a model, with a value that is known where one is set. -/
structure Accepts (u : Unicode) (env : Env) (name : String) : Prop where
  named : Named env name
  family : ∀ v, var env "LLM_FAMILY" = some v → v ∈ families.map Prod.fst
  detected : var env "LLM_FAMILY" = none → ∃ family, detect u name = some family
  ctx : ∀ v, var env "LLM_CTX" = some v → v ∈ ctxs.map Prod.fst
  large : var env "LLM_CTX" = some "256k" →
    familyOf u env name = .ok .ling3 ∨ familyOf u env name = .ok .lfm3
  reasoning : ∀ v, var env "LLM_REASONING" = some v → v ∈ ["on", "off"]
  engine : ∀ v, var env "LLM_ENGINE" = some v → v ∈ engines.map Prod.fst
  maxTokens : ∀ v, var env "LLM_MAX_TOKENS" = some v → ∃ n, parseU32 v = some n
  slotCache : ∀ v, var env "LLM_SLOT_CACHE" = some v → v ∈ ["on", "off"]
  templateFix : ∀ v, var env "LLM_TEMPLATE_FIX" = some v → v ∈ ["on", "off"]

/-- What every configuration keeps to. -/
structure Settings.Valid (cfg : Settings) : Prop where
  ctx : cfg.ctx = .k256 → cfg.family = .ling3 ∨ cfg.family = .lfm3
  reasoning : cfg.reasoning = true → cfg.family ≠ .granite4
  maxTokens : cfg.maxTokens < 2 ^ 32
  internalPort : cfg.internalPort = 8081
  extraArgs : ∀ word ∈ cfg.extraArgs,
    word.toList ≠ [] ∧ ∀ c ∈ word.toList, isWhitespace c = false

/-- The configuration is read as soon as each value is known by itself; only the context
depends on the family. -/
theorem exists_settings_iff {source : LlmSource} {defaultName name : String} :
    (∃ cfg, settings u env source defaultName name = .ok cfg) ↔
      (∃ family, familyOf u env name = .ok family ∧
        ∃ ctx, ctxs.lookup (varOr env "LLM_CTX" "64k") = some ctx ∧
          (ctx = .k256 → family = .ling3 ∨ family = .lfm3)) ∧
        (∃ b, switch.lookup (varOr env "LLM_REASONING" "on") = some b) ∧
          (∃ engine, engines.lookup (varOr env "LLM_ENGINE" "auto") = some engine) ∧
            (∃ n, parseNum env "LLM_MAX_TOKENS" 1024 = .ok n) ∧
              (∃ b, onOff env "LLM_SLOT_CACHE" true = .ok b) ∧
                ∃ b, onOff env "LLM_TEMPLATE_FIX" true = .ok b := by
  simp only [settings_eq_ok]
  constructor
  · rintro ⟨_, family, ctx, thinking, engine, n, slotCache, templateFix, hfamily, hctx, hlarge,
      hthinking, hengine, hn, hslot, hfix, -⟩
    exact ⟨⟨family, hfamily, ctx, hctx, hlarge⟩, ⟨thinking, hthinking⟩, ⟨engine, hengine⟩,
      ⟨n, hn⟩, ⟨slotCache, hslot⟩, templateFix, hfix⟩
  · rintro ⟨⟨family, hfamily, ctx, hctx, hlarge⟩, ⟨thinking, hthinking⟩, ⟨engine, hengine⟩,
      ⟨n, hn⟩, ⟨slotCache, hslot⟩, templateFix, hfix⟩
    exact ⟨_, family, ctx, thinking, engine, n, slotCache, templateFix, hfamily, hctx, hlarge,
      hthinking, hengine, hn, hslot, hfix, rfl⟩

theorem exists_ctx_iff {name : String} :
    (∃ family, familyOf u env name = .ok family ∧
      ∃ ctx, ctxs.lookup (varOr env "LLM_CTX" "64k") = some ctx ∧
        (ctx = .k256 → family = .ling3 ∨ family = .lfm3)) ↔
      (∃ family, familyOf u env name = .ok family) ∧
        (∀ v, var env "LLM_CTX" = some v → v ∈ ctxs.map Prod.fst) ∧
          (var env "LLM_CTX" = some "256k" →
            familyOf u env name = .ok .ling3 ∨ familyOf u env name = .ok .lfm3) := by
  have hknown := @varOr_mem_iff env "LLM_CTX" "64k" (ctxs.map Prod.fst) (by decide)
  constructor
  · rintro ⟨family, hfamily, ctx, hctx, hlarge⟩
    refine ⟨⟨family, hfamily⟩, hknown.mp (exists_lookup_iff.mp ⟨ctx, hctx⟩), fun hset => ?_⟩
    rw [varOr, hset, Option.getD_some, lookup_ctxs_eq_k256.mpr rfl] at hctx
    rw [hfamily]
    exact (hlarge (Option.some.inj hctx).symm).imp (congrArg _) (congrArg _)
  · rintro ⟨⟨family, hfamily⟩, hctx, hlarge⟩
    obtain ⟨ctx, hlookup⟩ := exists_lookup_iff.mpr (hknown.mpr hctx)
    refine ⟨family, hfamily, ctx, hlookup, ?_⟩
    rintro rfl
    have hset : var env "LLM_CTX" = some "256k" := by
      have hvalue := lookup_ctxs_eq_k256.mp hlookup
      rw [varOr] at hvalue
      rcases hvar : var env "LLM_CTX" with _ | v
      · rw [hvar, Option.getD_none] at hvalue
        exact absurd hvalue (by decide)
      · rw [hvar, Option.getD_some] at hvalue
        rw [hvalue]
    rw [hfamily] at hlarge
    exact (hlarge hset).imp Except.ok.inj Except.ok.inj

theorem exists_settings_iff_accepts {source : LlmSource} {defaultName name : String}
    (hnamed : Named env name) :
    (∃ cfg, settings u env source defaultName name = .ok cfg) ↔ Accepts u env name := by
  rw [exists_settings_iff, exists_ctx_iff, exists_familyOf_iff, exists_lookup_iff,
    exists_lookup_iff, exists_parseNum_iff, exists_onOff_iff, exists_onOff_iff,
    varOr_mem_iff (show "on" ∈ switch.map Prod.fst by decide),
    varOr_mem_iff (show "auto" ∈ engines.map Prod.fst by decide)]
  constructor
  · rintro ⟨⟨⟨hfamily, hdetected⟩, hctx, hlarge⟩, hreasoning, hengine, hmax, hslot, hfix⟩
    exact ⟨hnamed, hfamily, hdetected, hctx, hlarge, hreasoning, hengine, hmax, hslot, hfix⟩
  · intro h
    exact ⟨⟨⟨h.family, h.detected⟩, h.ctx, h.large⟩, h.reasoning, h.engine, h.maxTokens,
      h.slotCache, h.templateFix⟩

theorem parseU32_lt {s : String} {n : Nat} (h : parseU32 s = some n) : n < 2 ^ 32 := by
  rw [parseU32] at h
  generalize (if s.toList.head? = some '+' then s.toList.tail else s.toList) = digits at h
  split at h
  · cases h
  · split at h
    · rename_i hlt
      obtain rfl := Option.some.inj h
      exact hlt
    · cases h

theorem plain_of_mem_words {raw : Option String} {word : String}
    (h : word ∈ (raw.map splitWhitespace).getD []) :
    word.toList ≠ [] ∧ ∀ c ∈ word.toList, isWhitespace c = false := by
  rcases raw with _ | v
  · exact absurd h List.not_mem_nil
  · rw [Option.map_some, Option.getD_some, ← String.ofList_toList (s := v),
      splitWhitespace_eq] at h
    obtain ⟨run, hrun, rfl⟩ := List.mem_map.mp h
    rw [String.toList_ofList]
    exact mem_runs hrun

theorem valid_of_settings {source : LlmSource} {defaultName name : String} {cfg : Settings}
    (h : settings u env source defaultName name = .ok cfg) : cfg.Valid := by
  obtain ⟨family, ctx, thinking, engine, n, slotCache, templateFix, -, -, hlarge, -, -, hn, -, -,
    rfl⟩ := settings_eq_ok.mp h
  refine ⟨hlarge, ?_, ?_, rfl, ?_⟩
  · intro hreasoning
    exact of_decide_eq_true (Bool.and_eq_true_iff.mp hreasoning).2
  · show n < 2 ^ 32
    rcases parseNum_eq_ok.mp hn with ⟨-, rfl⟩ | ⟨v, -, hv⟩
    · decide
    · exact parseU32_lt hv
  · intro word hword
    exact plain_of_mem_words hword

theorem map_some_eq_ok {α : Type} {x : Except String α} {a : α} :
    x.map some = .ok (some a) ↔ x = .ok a := by
  rcases x with err | b
  · exact iff_of_false nofun nofun
  · rw [Except.map, Except.ok.injEq, Except.ok.injEq, Option.some.injEq]

theorem llmFromEnv_of_named {name : String} (hnamed : Named env name) :
    ∃ source defaultName,
      llmFromEnv u env = (settings u env source defaultName name).map some := by
  rw [llmFromEnv]
  rcases hnamed with ⟨hfile, hrepo⟩ | ⟨hfile, hrepo⟩
  · rw [hfile, hrepo]
    exact ⟨_, _, rfl⟩
  · rw [hfile, hrepo]
    exact ⟨_, _, rfl⟩

theorem named_of_llmFromEnv {cfg : Settings} (h : llmFromEnv u env = .ok (some cfg)) :
    ∃ name, Named env name := by
  rw [llmFromEnv] at h
  split at h
  · cases h
  · cases h
  · rename_i file hfile hrepo
    exact ⟨file, Or.inl ⟨hfile, hrepo⟩⟩
  · rename_i repo hfile hrepo
    exact ⟨repo, Or.inr ⟨hfile, hrepo⟩⟩

theorem valid_of_llmFromEnv {cfg : Settings} (h : llmFromEnv u env = .ok (some cfg)) :
    cfg.Valid := by
  obtain ⟨name, hnamed⟩ := named_of_llmFromEnv h
  obtain ⟨source, defaultName, hread⟩ := llmFromEnv_of_named (u := u) hnamed
  rw [hread, map_some_eq_ok] at h
  exact valid_of_settings h

/-- An environment is taken exactly when it names one model and each value that it sets is
known, and what is read from it keeps to the limits. -/
theorem llm_from_env (u : Unicode) (env : Env) :
    ((∃ cfg, llmFromEnv u env = .ok (some cfg)) ↔ ∃ name, Accepts u env name) ∧
      ∀ cfg, llmFromEnv u env = .ok (some cfg) → cfg.Valid := by
  refine ⟨⟨?_, ?_⟩, fun cfg h => valid_of_llmFromEnv h⟩
  · rintro ⟨cfg, h⟩
    obtain ⟨name, hnamed⟩ := named_of_llmFromEnv h
    obtain ⟨source, defaultName, hread⟩ := llmFromEnv_of_named (u := u) hnamed
    rw [hread, map_some_eq_ok] at h
    exact ⟨name, (exists_settings_iff_accepts hnamed).mp ⟨cfg, h⟩⟩
  · rintro ⟨name, h⟩
    obtain ⟨source, defaultName, hread⟩ := llmFromEnv_of_named (u := u) h.named
    obtain ⟨cfg, hcfg⟩ := (exists_settings_iff_accepts h.named).mpr h
    rw [hread]
    exact ⟨cfg, map_some_eq_ok.mpr hcfg⟩

end Accepted

example : modelNameFromRepo "inclusionAI/Ling-3.0-tiny-GGUF:Q4_K_M" = "Ling-3.0-tiny-Q4_K_M" := by
  decide

end AssistantHub.LlmSettings
