import AssistantHub.CommandLines
import AssistantHub.LlmSettings

namespace AssistantHub.EngineArgs

open AssistantHub.CommandLines
open AssistantHub.EnginePlans (Ctx)
open AssistantHub.Engines (Family)
open AssistantHub.LlmSettings
open AssistantHub.UnicodeText (Unicode)

/-- Sampling values and chat template per family. -/
def preset (cfg : Settings) : List String :=
  match cfg.family, cfg.reasoning with
  | .minicpm5, true => ["--temp", "0.9", "--top-p", "0.95", "--min-p", "0"]
  | .minicpm5, false => ["--temp", "0.7", "--top-p", "0.95", "--min-p", "0"]
  | .lfm3, _ => ["--temp", "0.1", "--top-k", "50", "--repeat-penalty", "1.1"]
  | .qwen35, true =>
      ["--temp", "1.0", "--top-p", "0.95", "--top-k", "20", "--min-p", "0",
        "--presence-penalty", "1.5"]
  | .qwen35, false =>
      ["--temp", "0.7", "--top-p", "0.8", "--top-k", "20", "--min-p", "0",
        "--presence-penalty", "1.5"]
  | .ling3, _ => ["--temp", "1.0", "--top-p", "0.95", "--top-k", "20"]
  | .granite4, _ => ["--temp", "0.0"]

def ctxArgs (cfg : Settings) : List String :=
  match cfg.ctx, cfg.family with
  | .k32, _ => ["-c", "32768"]
  | .k64, _ => ["-c", "65536"]
  | .k128, _ => ["-c", "131072"]
  -- Ling 3.0 needs YaRN rope scaling (factor 2 over its 128k base).
  | .k256, .ling3 =>
      ["-c", "262144", "--rope-scaling", "yarn", "--rope-scale", "2", "--yarn-orig-ctx", "131072"]
  | .k256, _ => ["-c", "262144"]

/-- The command line of llama.cpp's llama-server. -/
def serverArgs (cfg : Settings) (slotCache offline : Bool) (template : Option String) :
    List String :=
  (match cfg.source with
    | .file path => ["-m", path]
    | .hfRepo repo => ["-hf", repo, "--no-mmproj"] ++ if offline then ["--offline"] else []) ++
  ["--alias", cfg.modelName, "--host", "127.0.0.1", "--port", toString cfg.internalPort,
    "--no-ui", "--device", cfg.device, "-ngl", cfg.gpuLayers] ++
  ctxArgs cfg ++
  ["--jinja"] ++
  (if cfg.reasoning then ["--reasoning", "on", "--reasoning-budget", cfg.reasoningBudget]
    else ["--reasoning", "off"]) ++
  (if 0 < cfg.maxTokens then ["--n-predict", toString cfg.maxTokens] else []) ++
  (if slotCache then ["--slot-save-path", cfg.slotDir] else []) ++
  preset cfg ++
  (match template with
    | some t => ["--chat-template-file", t]
    | none => []) ++
  -- Last, so they override everything above.
  cfg.extraArgs

/-- The command line of ik_llama.cpp's llama-server. -/
def ikArgs (cfg : Settings) (model : String) (slotCache : Bool) (template : Option String)
    (threads : Nat) : List String :=
  ["-m", model, "--alias", cfg.modelName, "--host", "127.0.0.1", "--port",
    toString cfg.internalPort, "--webui", "none", "--log-disable", "-t", toString threads] ++
  ctxArgs cfg ++
  ["--jinja"] ++
  (if cfg.reasoning then ["--reasoning", "on", "--reasoning-budget", cfg.reasoningBudget]
    else ["--reasoning", "off"]) ++
  (if 0 < cfg.maxTokens then ["-n", toString cfg.maxTokens] else []) ++
  (if slotCache then ["--slot-save-path", cfg.slotDir] else []) ++
  preset cfg ++
  ["--ctx-checkpoints-tolerance", "64"] ++
  (match template with
    | some t => ["--chat-template-file", t]
    | none => []) ++
  cfg.extraArgs

section Options

/-- The options of both engines that take no value. -/
def flags : List String := ["--no-mmproj", "--offline", "--no-ui", "--jinja", "--log-disable"]

/-- The options of both engines that take one value. -/
def valued : List String :=
  ["-m", "-hf", "--alias", "--host", "--port", "--device", "-ngl", "--webui", "-t", "-c",
    "--rope-scaling", "--rope-scale", "--yarn-orig-ctx", "--reasoning", "--reasoning-budget",
    "--n-predict", "-n", "--slot-save-path", "--temp", "--top-p", "--top-k", "--min-p",
    "--presence-penalty", "--repeat-penalty", "--ctx-checkpoints-tolerance",
    "--chat-template-file"]

/-- An engine takes the options as its help says. -/
structure Knows (arity : String → Nat) : Prop where
  flags : ∀ name ∈ flags, arity name = 0
  valued : ∀ name ∈ valued, arity name = 1

/-- The options that only one engine has, and the model, which only one of them downloads. -/
def ownOptions : List String :=
  ["-m", "-hf", "--no-mmproj", "--offline", "--no-ui", "--device", "-ngl", "--n-predict",
    "--webui", "--log-disable", "-t", "-n", "--ctx-checkpoints-tolerance"]

def flag (name : String) : Setting String := ⟨name, []⟩

def value (name text : String) : Setting String := ⟨name, [text]⟩

def pairs : List String → List (Setting String)
  | name :: text :: rest => value name text :: pairs rest
  | _ => []

def sourceSettings (source : LlmSource) (offline : Bool) : List (Setting String) :=
  match source with
  | .file path => [value "-m" path]
  | .hfRepo repo =>
      [value "-hf" repo, flag "--no-mmproj"] ++ if offline then [flag "--offline"] else []

def reasoningSettings (cfg : Settings) : List (Setting String) :=
  if cfg.reasoning then [value "--reasoning" "on", value "--reasoning-budget" cfg.reasoningBudget]
  else [value "--reasoning" "off"]

def limitSettings (name : String) (cfg : Settings) : List (Setting String) :=
  if 0 < cfg.maxTokens then [value name (toString cfg.maxTokens)] else []

def slotSettings (cfg : Settings) (slotCache : Bool) : List (Setting String) :=
  if slotCache then [value "--slot-save-path" cfg.slotDir] else []

def templateSettings (template : Option String) : List (Setting String) :=
  template.toList.map (value "--chat-template-file")

def listenSettings (cfg : Settings) : List (Setting String) :=
  [value "--alias" cfg.modelName, value "--host" "127.0.0.1",
    value "--port" (toString cfg.internalPort)]

/-- The settings of llama.cpp, before the extra arguments. -/
def serverSettings (cfg : Settings) (slotCache offline : Bool) (template : Option String) :
    List (Setting String) :=
  sourceSettings cfg.source offline ++ (listenSettings cfg ++
    ([flag "--no-ui", value "--device" cfg.device, value "-ngl" cfg.gpuLayers] ++
      (pairs (ctxArgs cfg) ++ ([flag "--jinja"] ++ (reasoningSettings cfg ++
        (limitSettings "--n-predict" cfg ++ (slotSettings cfg slotCache ++
          (pairs (preset cfg) ++ templateSettings template))))))))

/-- The settings of ik_llama.cpp, before the extra arguments. -/
def ikSettings (cfg : Settings) (model : String) (slotCache : Bool) (template : Option String)
    (threads : Nat) : List (Setting String) :=
  [value "-m" model] ++ (listenSettings cfg ++
    ([value "--webui" "none", flag "--log-disable", value "-t" (toString threads)] ++
      (pairs (ctxArgs cfg) ++ ([flag "--jinja"] ++ (reasoningSettings cfg ++
        (limitSettings "-n" cfg ++ (slotSettings cfg slotCache ++
          (pairs (preset cfg) ++ ([value "--ctx-checkpoints-tolerance" "64"] ++
            templateSettings template)))))))))

end Options

section Words

theorem words_preset (cfg : Settings) : words (pairs (preset cfg)) = preset cfg := by
  rw [preset]
  split <;> rfl

theorem words_ctxArgs (cfg : Settings) : words (pairs (ctxArgs cfg)) = ctxArgs cfg := by
  rw [ctxArgs]
  split <;> rfl

theorem serverArgs_eq (cfg : Settings) (slotCache offline : Bool) (template : Option String) :
    serverArgs cfg slotCache offline template =
      words (serverSettings cfg slotCache offline template) ++ cfg.extraArgs := by
  simp only [serverArgs, serverSettings, words_append, words_preset, words_ctxArgs,
    List.append_assoc]
  rcases cfg.source with path | repo <;> rcases template with _ | t <;>
    simp [sourceSettings, listenSettings, reasoningSettings, limitSettings, slotSettings,
      templateSettings, flag, value, apply_ite words]

theorem ikArgs_eq (cfg : Settings) (model : String) (slotCache : Bool)
    (template : Option String) (threads : Nat) :
    ikArgs cfg model slotCache template threads =
      words (ikSettings cfg model slotCache template threads) ++ cfg.extraArgs := by
  simp only [ikArgs, ikSettings, words_append, words_preset, words_ctxArgs, List.append_assoc]
  rcases template with _ | t <;>
    simp [listenSettings, reasoningSettings, limitSettings, slotSettings, templateSettings, flag,
      value, apply_ite words]

end Words

section Known

/-- A setting of one of the options, with the values that it takes. -/
def Known (s : Setting String) : Prop :=
  s.values = [] ∧ s.name ∈ flags ∨ s.values.length = 1 ∧ s.name ∈ valued

theorem Known.length {arity : String → Nat} (harity : Knows arity) {s : Setting String}
    (h : Known s) : s.values.length = arity s.name := by
  rcases h with ⟨hvalues, hname⟩ | ⟨hvalues, hname⟩
  · rw [hvalues, harity.flags s.name hname]
    rfl
  · rw [hvalues, harity.valued s.name hname]

@[simp] theorem known_flag {name : String} : Known (flag name) ↔ name ∈ flags :=
  ⟨fun h => h.elim And.right (fun h => nomatch h.1), fun h => Or.inl ⟨rfl, h⟩⟩

@[simp] theorem known_value {name text : String} : Known (value name text) ↔ name ∈ valued :=
  ⟨fun h => h.elim (fun h => nomatch h.1) And.right, fun h => Or.inr ⟨rfl, h⟩⟩

theorem known_pairs_preset (cfg : Settings) : ∀ s ∈ pairs (preset cfg), Known s := by
  rw [preset]
  split <;> simp [pairs, valued]

theorem known_pairs_ctxArgs (cfg : Settings) : ∀ s ∈ pairs (ctxArgs cfg), Known s := by
  rw [ctxArgs]
  split <;> simp [pairs, valued]

theorem known_sourceSettings (source : LlmSource) (offline : Bool) :
    ∀ s ∈ sourceSettings source offline, Known s := by
  cases source with
  | file path => simp [sourceSettings, valued]
  | hfRepo repo => cases offline <;> simp [sourceSettings, valued, flags]

theorem known_reasoningSettings (cfg : Settings) : ∀ s ∈ reasoningSettings cfg, Known s := by
  rw [reasoningSettings]
  split <;> simp [valued]

theorem known_limitSettings {name : String} (h : name ∈ valued) (cfg : Settings) :
    ∀ s ∈ limitSettings name cfg, Known s := by
  rw [limitSettings]
  split <;> simp [h]

theorem known_slotSettings (cfg : Settings) (slotCache : Bool) :
    ∀ s ∈ slotSettings cfg slotCache, Known s := by
  rw [slotSettings]
  split <;> simp [valued]

theorem known_templateSettings (template : Option String) :
    ∀ s ∈ templateSettings template, Known s := by
  cases template <;> simp [templateSettings, valued]

theorem known_listenSettings (cfg : Settings) : ∀ s ∈ listenSettings cfg, Known s := by
  simp [listenSettings, valued]

theorem known_serverSettings (cfg : Settings) (slotCache offline : Bool)
    (template : Option String) :
    ∀ s ∈ serverSettings cfg slotCache offline template, Known s := by
  simp only [serverSettings, List.forall_mem_append]
  refine ⟨known_sourceSettings _ _, known_listenSettings cfg, ?_, known_pairs_ctxArgs cfg, ?_,
    known_reasoningSettings cfg, known_limitSettings (by decide) cfg, known_slotSettings cfg _,
    known_pairs_preset cfg, known_templateSettings template⟩
  · simp [valued, flags]
  · simp [flags]

theorem known_ikSettings (cfg : Settings) (model : String) (slotCache : Bool)
    (template : Option String) (threads : Nat) :
    ∀ s ∈ ikSettings cfg model slotCache template threads, Known s := by
  simp only [ikSettings, List.forall_mem_append]
  refine ⟨?_, known_listenSettings cfg, ?_, known_pairs_ctxArgs cfg, ?_,
    known_reasoningSettings cfg, known_limitSettings (by decide) cfg, known_slotSettings cfg _,
    known_pairs_preset cfg, ?_, known_templateSettings template⟩
  · simp [valued]
  · simp [valued, flags]
  · simp [flags]
  · simp [valued]

theorem read_serverArgs {arity : String → Nat} (harity : Knows arity) (cfg : Settings)
    (slotCache offline : Bool) (template : Option String) :
    read arity (serverArgs cfg slotCache offline template) =
      serverSettings cfg slotCache offline template ++ read arity cfg.extraArgs := by
  rw [serverArgs_eq]
  exact read_words_append
    (fun s hs => (known_serverSettings cfg slotCache offline template s hs).length harity) _

theorem read_ikArgs {arity : String → Nat} (harity : Knows arity) (cfg : Settings)
    (model : String) (slotCache : Bool) (template : Option String) (threads : Nat) :
    read arity (ikArgs cfg model slotCache template threads) =
      ikSettings cfg model slotCache template threads ++ read arity cfg.extraArgs := by
  rw [ikArgs_eq]
  exact read_words_append
    (fun s hs => (known_ikSettings cfg model slotCache template threads s hs).length harity) _

end Known

section Once

/-- The options in the order of the command line. -/
def names (settings : List (Setting String)) : List String := settings.map Setting.name

theorem names_append (a b : List (Setting String)) : names (a ++ b) = names a ++ names b :=
  List.map_append

theorem names_preset (cfg : Settings) :
    (names (pairs (preset cfg))).Sublist
      ["--temp", "--top-p", "--top-k", "--min-p", "--presence-penalty", "--repeat-penalty"] := by
  rw [preset]
  split <;> decide

theorem names_ctxArgs (cfg : Settings) :
    (names (pairs (ctxArgs cfg))).Sublist
      ["-c", "--rope-scaling", "--rope-scale", "--yarn-orig-ctx"] := by
  rw [ctxArgs]
  split <;> decide

theorem names_sourceSettings (source : LlmSource) (offline : Bool) :
    (names (sourceSettings source offline)).Sublist
      ["-m", "-hf", "--no-mmproj", "--offline"] := by
  cases source with
  | file path =>
      show ["-m"].Sublist _
      decide
  | hfRepo repo =>
      cases offline
      · show ["-hf", "--no-mmproj"].Sublist _
        decide
      · show ["-hf", "--no-mmproj", "--offline"].Sublist _
        decide

theorem names_reasoningSettings (cfg : Settings) :
    (names (reasoningSettings cfg)).Sublist ["--reasoning", "--reasoning-budget"] := by
  rw [reasoningSettings]
  split
  · exact List.Sublist.refl _
  · show ["--reasoning"].Sublist _
    decide

theorem names_limitSettings (name : String) (cfg : Settings) :
    (names (limitSettings name cfg)).Sublist [name] := by
  rw [limitSettings]
  split
  · exact List.Sublist.refl _
  · exact List.nil_sublist _

theorem names_slotSettings (cfg : Settings) (slotCache : Bool) :
    (names (slotSettings cfg slotCache)).Sublist ["--slot-save-path"] := by
  rw [slotSettings]
  split
  · exact List.Sublist.refl _
  · exact List.nil_sublist _

theorem names_templateSettings (template : Option String) :
    (names (templateSettings template)).Sublist ["--chat-template-file"] := by
  cases template with
  | none => exact List.nil_sublist _
  | some t => exact List.Sublist.refl _

theorem nodup_serverSettings (cfg : Settings) (slotCache offline : Bool)
    (template : Option String) :
    (names (serverSettings cfg slotCache offline template)).Nodup := by
  simp only [serverSettings, names_append]
  refine List.Nodup.sublist
    ((names_sourceSettings _ _).append ((List.Sublist.refl _).append
      ((List.Sublist.refl _).append ((names_ctxArgs cfg).append ((List.Sublist.refl _).append
        ((names_reasoningSettings cfg).append ((names_limitSettings _ cfg).append
          ((names_slotSettings cfg _).append ((names_preset cfg).append
            (names_templateSettings template)))))))))) ?_
  simp [names, listenSettings, value, flag]

theorem nodup_ikSettings (cfg : Settings) (model : String) (slotCache : Bool)
    (template : Option String) (threads : Nat) :
    (names (ikSettings cfg model slotCache template threads)).Nodup := by
  simp only [ikSettings, names_append]
  refine List.Nodup.sublist
    ((List.Sublist.refl _).append ((List.Sublist.refl _).append
      ((List.Sublist.refl _).append ((names_ctxArgs cfg).append ((List.Sublist.refl _).append
        ((names_reasoningSettings cfg).append ((names_limitSettings _ cfg).append
          ((names_slotSettings cfg _).append ((names_preset cfg).append
            ((List.Sublist.refl _).append (names_templateSettings template))))))))))) ?_
  simp [names, listenSettings, value, flag]

end Once

section Common

/-- Whether both engines take an option for the same thing. -/
def shared (s : Setting String) : Bool := s.name ∉ ownOptions

/-- The settings that do not depend on the engine. -/
def common (cfg : Settings) (slotCache : Bool) (template : Option String) :
    List (Setting String) :=
  listenSettings cfg ++ (pairs (ctxArgs cfg) ++ ([flag "--jinja"] ++ (reasoningSettings cfg ++
    (slotSettings cfg slotCache ++ (pairs (preset cfg) ++ templateSettings template)))))

theorem mem_of_names {settings : List (Setting String)} {options : List String}
    (h : (names settings).Sublist options) {s : Setting String} (hs : s ∈ settings) :
    s.name ∈ options :=
  h.subset (List.mem_map_of_mem hs)

theorem and_mem_iff {settings : List (Setting String)} {options : List String}
    (h : (names settings).Sublist options) {name : String} {values : List String} :
    name ∈ options ∧ ⟨name, values⟩ ∈ settings ↔ ⟨name, values⟩ ∈ settings :=
  and_iff_right_of_imp fun hs => mem_of_names h hs

theorem filter_shared_eq_self {settings : List (Setting String)} {options : List String}
    (h : (names settings).Sublist options) (hshared : ∀ name ∈ options, name ∉ ownOptions) :
    settings.filter shared = settings :=
  List.filter_eq_self.mpr fun s hs => decide_eq_true (hshared s.name (mem_of_names h hs))

theorem filter_shared_eq_nil {settings : List (Setting String)} {options : List String}
    (h : (names settings).Sublist options) (hown : ∀ name ∈ options, name ∈ ownOptions) :
    settings.filter shared = [] := by
  refine List.filter_eq_nil_iff.mpr fun s hs hshared => ?_
  exact of_decide_eq_true hshared (hown s.name (mem_of_names h hs))

theorem filter_common (cfg : Settings) (slotCache : Bool) (template : Option String) :
    (common cfg slotCache template).filter shared = common cfg slotCache template := by
  simp only [common, List.filter_append, filter_shared_eq_self (names_preset cfg) (by decide),
    filter_shared_eq_self (names_ctxArgs cfg) (by decide),
    filter_shared_eq_self (names_reasoningSettings cfg) (by decide),
    filter_shared_eq_self (names_slotSettings cfg slotCache) (by decide),
    filter_shared_eq_self (names_templateSettings template) (by decide)]
  rfl

theorem filter_serverSettings (cfg : Settings) (slotCache offline : Bool)
    (template : Option String) :
    (serverSettings cfg slotCache offline template).filter shared =
      common cfg slotCache template := by
  rw [← filter_common]
  simp only [serverSettings, common, List.filter_append,
    filter_shared_eq_nil (names_sourceSettings cfg.source offline) (by decide),
    filter_shared_eq_nil (names_limitSettings "--n-predict" cfg) (by decide)]
  rfl

theorem filter_ikSettings (cfg : Settings) (model : String) (slotCache : Bool)
    (template : Option String) (threads : Nat) :
    (ikSettings cfg model slotCache template threads).filter shared =
      common cfg slotCache template := by
  rw [← filter_common]
  simp only [ikSettings, common, List.filter_append,
    filter_shared_eq_nil (names_limitSettings "-n" cfg) (by decide)]
  rfl

/-- The size of the context in tokens. -/
def tokens : Ctx → Nat
  | .k32 => 32 * 1024
  | .k64 => 64 * 1024
  | .k128 => 128 * 1024
  | .k256 => 256 * 1024

theorem toString_tokens (ctx : Ctx) :
    toString (tokens ctx) =
      match ctx with
      | .k32 => "32768"
      | .k64 => "65536"
      | .k128 => "131072"
      | .k256 => "262144" := by
  cases ctx <;> rfl

theorem mem_ctxArgs {cfg : Settings} {values : List String} :
    ⟨"-c", values⟩ ∈ pairs (ctxArgs cfg) ↔ values = [toString (tokens cfg.ctx)] := by
  rw [toString_tokens, ctxArgs]
  rcases cfg.ctx <;> rcases cfg.family <;> simp [pairs, value]

theorem mem_reasoningSettings {cfg : Settings} {values : List String} :
    (⟨"--reasoning", values⟩ ∈ reasoningSettings cfg ↔
        values = [if cfg.reasoning then "on" else "off"]) ∧
      (⟨"--reasoning-budget", values⟩ ∈ reasoningSettings cfg ↔
        cfg.reasoning = true ∧ values = [cfg.reasoningBudget]) := by
  rw [reasoningSettings]
  rcases cfg.reasoning with _ | _ <;> simp [value]

theorem mem_slotSettings {cfg : Settings} {slotCache : Bool} {values : List String} :
    ⟨"--slot-save-path", values⟩ ∈ slotSettings cfg slotCache ↔
      slotCache = true ∧ values = [cfg.slotDir] := by
  rw [slotSettings]
  rcases slotCache with _ | _ <;> simp [value]

theorem mem_templateSettings {template : Option String} {values : List String} :
    ⟨"--chat-template-file", values⟩ ∈ templateSettings template ↔
      ∃ path, template = some path ∧ values = [path] := by
  rw [templateSettings]
  rcases template with _ | path <;> simp [value]

/-- Each option stands in one part only, whatever the engine. -/
theorem mem_own_iff {cfg : Settings} {slotCache : Bool} {template : Option String}
    {own : List (Setting String)} (hown : own.filter shared = common cfg slotCache template)
    {name : String} {values : List String} (hname : name ∉ ownOptions) :
    ⟨name, values⟩ ∈ own ↔
      ⟨name, values⟩ ∈ listenSettings cfg ∨
        name ∈ ["-c", "--rope-scaling", "--rope-scale", "--yarn-orig-ctx"] ∧
          ⟨name, values⟩ ∈ pairs (ctxArgs cfg) ∨
        ⟨name, values⟩ = flag "--jinja" ∨
        name ∈ ["--reasoning", "--reasoning-budget"] ∧ ⟨name, values⟩ ∈ reasoningSettings cfg ∨
        name ∈ ["--slot-save-path"] ∧ ⟨name, values⟩ ∈ slotSettings cfg slotCache ∨
        name ∈ ["--temp", "--top-p", "--top-k", "--min-p", "--presence-penalty",
          "--repeat-penalty"] ∧ ⟨name, values⟩ ∈ pairs (preset cfg) ∨
        name ∈ ["--chat-template-file"] ∧ ⟨name, values⟩ ∈ templateSettings template := by
  have hmem : ⟨name, values⟩ ∈ own ↔
      (⟨name, values⟩ : Setting String) ∈ common cfg slotCache template := by
    rw [← hown, List.mem_filter]
    exact (and_iff_left (decide_eq_true hname)).symm
  rw [hmem, common]
  simp only [List.mem_append]
  rw [List.mem_singleton, and_mem_iff (names_ctxArgs cfg),
    and_mem_iff (names_reasoningSettings cfg), and_mem_iff (names_slotSettings cfg slotCache),
    and_mem_iff (names_preset cfg), and_mem_iff (names_templateSettings template)]

/-- Settings that say what a configuration says. -/
structure Configured (cfg : Settings) (slotCache : Bool) (template : Option String)
    (own : List (Setting String)) : Prop where
  once : (names own).Nodup
  host : ∀ values, ⟨"--host", values⟩ ∈ own ↔ values = ["127.0.0.1"]
  port : ∀ values, ⟨"--port", values⟩ ∈ own ↔ values = [toString cfg.internalPort]
  modelName : ∀ values, ⟨"--alias", values⟩ ∈ own ↔ values = [cfg.modelName]
  ctx : ∀ values, ⟨"-c", values⟩ ∈ own ↔ values = [toString (tokens cfg.ctx)]
  jinja : ∀ values, ⟨"--jinja", values⟩ ∈ own ↔ values = []
  reasoning : ∀ values,
    ⟨"--reasoning", values⟩ ∈ own ↔ values = [if cfg.reasoning then "on" else "off"]
  budget : ∀ values,
    ⟨"--reasoning-budget", values⟩ ∈ own ↔
      cfg.reasoning = true ∧ values = [cfg.reasoningBudget]
  slots : ∀ values,
    ⟨"--slot-save-path", values⟩ ∈ own ↔ slotCache = true ∧ values = [cfg.slotDir]
  template : ∀ values,
    ⟨"--chat-template-file", values⟩ ∈ own ↔ ∃ path, template = some path ∧ values = [path]

theorem configured_of_filter {cfg : Settings} {slotCache : Bool} {template : Option String}
    {own : List (Setting String)} (honce : (names own).Nodup)
    (hown : own.filter shared = common cfg slotCache template) :
    Configured cfg slotCache template own where
  once := honce
  host values := by
    rw [mem_own_iff hown (show "--host" ∉ ownOptions by decide)]
    simp [listenSettings, flag, value]
  port values := by
    rw [mem_own_iff hown (show "--port" ∉ ownOptions by decide)]
    simp [listenSettings, flag, value]
  modelName values := by
    rw [mem_own_iff hown (show "--alias" ∉ ownOptions by decide)]
    simp [listenSettings, flag, value]
  ctx values := by
    rw [mem_own_iff hown (show "-c" ∉ ownOptions by decide), mem_ctxArgs]
    simp [listenSettings, flag, value]
  jinja values := by
    rw [mem_own_iff hown (show "--jinja" ∉ ownOptions by decide)]
    simp [listenSettings, flag, value]
  reasoning values := by
    rw [mem_own_iff hown (show "--reasoning" ∉ ownOptions by decide), mem_reasoningSettings.1]
    simp [listenSettings, flag, value]
  budget values := by
    rw [mem_own_iff hown (show "--reasoning-budget" ∉ ownOptions by decide),
      mem_reasoningSettings.2]
    simp [listenSettings, flag, value]
  slots values := by
    rw [mem_own_iff hown (show "--slot-save-path" ∉ ownOptions by decide), mem_slotSettings]
    simp [listenSettings, flag, value]
  template values := by
    rw [mem_own_iff hown (show "--chat-template-file" ∉ ownOptions by decide),
      mem_templateSettings]
    simp [listenSettings, flag, value]

theorem configured_serverSettings (cfg : Settings) (slotCache offline : Bool)
    (template : Option String) :
    Configured cfg slotCache template (serverSettings cfg slotCache offline template) :=
  configured_of_filter (nodup_serverSettings cfg slotCache offline template)
    (filter_serverSettings cfg slotCache offline template)

theorem configured_ikSettings (cfg : Settings) (model : String) (slotCache : Bool)
    (template : Option String) (threads : Nat) :
    Configured cfg slotCache template (ikSettings cfg model slotCache template threads) :=
  configured_of_filter (nodup_ikSettings cfg model slotCache template threads)
    (filter_ikSettings cfg model slotCache template threads)

/-- The number of values of each option, as the help of both engines says. -/
def helpArity (name : String) : Nat := if name ∈ flags then 0 else 1

theorem knows_helpArity : Knows helpArity := ⟨by decide, by decide⟩

/-- A model with the name of an option. -/
def hostNamed : Env
  | "LLM_MODEL_FILENAME" => some "LFM3-8B.gguf"
  | "LLM_MODEL_NAME" => some " --host "
  | "LLM_FAMILY" => some "lfm3"
  | "LLM_CTX" => some "256k"
  | _ => none

def hostNamedSettings : Settings :=
  assemble hostNamed (.file "/models/llm/LFM3-8B.gguf") "LFM3-8B" .lfm3 .k256 true .auto 1024 true
    true

/-- The command lines that an engine is started with. -/
inductive Started (cfg : Settings) : List String → Prop where
  | llamacpp (slotCache offline : Bool) (template : Option String) :
      Started cfg (serverArgs cfg slotCache offline template)
  | ik (model : String) (slotCache : Bool) (template : Option String) (threads : Nat) :
      Started cfg (ikArgs cfg model slotCache template threads)

theorem Started.configured {cfg : Settings} {args : List String} (h : Started cfg args)
    {arity : String → Nat} (harity : Knows arity) :
    ∃ own slotCache template, Configured cfg slotCache template own ∧
      read arity args = own ++ read arity cfg.extraArgs := by
  cases h with
  | llamacpp slotCache offline template =>
      exact ⟨_, slotCache, template, configured_serverSettings cfg slotCache offline template,
        read_serverArgs harity cfg slotCache offline template⟩
  | ik model slotCache template threads =>
      exact ⟨_, slotCache, template,
        configured_ikSettings cfg model slotCache template threads,
        read_ikArgs harity cfg model slotCache template threads⟩

theorem effective_of_extra {name : String} {values : List String}
    {own extra : List (Setting String)} (honce : (names own).Nodup)
    (hextra : ∀ s ∈ extra, s.name ≠ name) (hmem : ⟨name, values⟩ ∈ own) :
    effective name (own ++ extra) = some values := by
  rw [effective_append, effective_eq_none hextra, Option.none_or]
  exact effective_of_mem honce hmem

/-- Whatever the environment says, an engine listens on the loopback address at the port that
the proxy asks, unless the extra arguments name another. -/
theorem engines_listen {arity : String → Nat} (harity : Knows arity) {u : Unicode} {env : Env}
    {cfg : Settings} (henv : llmFromEnv u env = .ok (some cfg))
    (hextra : ∀ s ∈ read arity cfg.extraArgs, s.name ≠ "--host" ∧ s.name ≠ "--port")
    {args : List String} (hargs : Started cfg args) :
    effective "--host" (read arity args) = some ["127.0.0.1"] ∧
      effective "--port" (read arity args) = some ["8081"] := by
  obtain ⟨own, slotCache, template, hown, hread⟩ := hargs.configured harity
  have hport : cfg.internalPort = 8081 := (valid_of_llmFromEnv henv).internalPort
  rw [hread]
  constructor
  · exact effective_of_extra hown.once (fun s hs => (hextra s hs).1)
      ((hown.host ["127.0.0.1"]).mpr rfl)
  · refine effective_of_extra hown.once (fun s hs => (hextra s hs).2) ((hown.port _).mpr ?_)
    rw [hport]
    rfl

theorem engines_listen_hostNamed :
    llmFromEnv Unicode.asciiHan hostNamed = .ok (some hostNamedSettings) ∧
      effective "--host" (read helpArity (serverArgs hostNamedSettings true false none)) =
        some ["127.0.0.1"] := by
  have henv : llmFromEnv Unicode.asciiHan hostNamed = .ok (some hostNamedSettings) := by
    rfl
  refine ⟨henv, (engines_listen knows_helpArity henv ?_ (.llamacpp true false none)).1⟩
  rw [show hostNamedSettings.extraArgs = [] from rfl, read_nil]
  exact nofun

end Common

end AssistantHub.EngineArgs
