import AssistantHub.GpuFaults
import AssistantHub.TextParts

namespace AssistantHub.SpeechDevices

open AssistantHub.CachedModels
open AssistantHub.CrashSteps
open AssistantHub.GpuFaults
open AssistantHub.RunPrefixes
open AssistantHub.RustText
open AssistantHub.Streaks
open AssistantHub.TextParts
open AssistantHub.TrimmedEnds
open AssistantHub.UnicodeText

def vulkan : List Char := "Vulkan".toList

/-- The name of a line like `  Vulkan0: Intel(R) UHD Graphics 730 (...)`. -/
def deviceName (line : List Char) : Option (List Char) :=
  (splitOnce ':' (trimEnds isWhitespace line)).bind fun parts =>
    let name := trimEnds isWhitespace parts.1
    if vulkan <+: name ∧ (name.drop 6).all Char.isDigit then some name else none

def parseDeviceList (output : String) : List String :=
  (lines output).filterMap fun line => (deviceName line.toList).map String.ofList

/-- Where TTS runs. -/
inductive TtsBackend where
  | auto
  | vulkan
  | cpu
  deriving DecidableEq, Repr

/-- The settings of both engines that depend on the machine. -/
structure SpeechConfig where
  device : Option String
  backend : TtsBackend
  threads : Option Nat

/-- Picks the devices for STT and TTS. Settings that the user made stay. -/
def chooseSpeechDevices (gpus : List String) (cores : Nat) (cfg : SpeechConfig) :
    SpeechConfig :=
  let onGpu := !gpus.isEmpty
  let backend :=
    if cfg.backend = .auto then if onGpu then .vulkan else .cpu else cfg.backend
  { device := some (cfg.device.getD (if onGpu then gpus.headD "" else "cpu"))
    backend := backend
    threads := some (cfg.threads.getD (if backend = .cpu then min cores 8 else 2)) }

/-- `!device.eq_ignore_ascii_case("cpu")` -/
def SpeechConfig.sttOnGpu (cfg : SpeechConfig) : Bool :=
  cfg.device.any fun device => device.toList.map Char.toLower ≠ "cpu".toList

def SpeechConfig.ttsOnGpu (cfg : SpeechConfig) : Bool := cfg.backend = .vulkan

/-- The hub as it starts on a machine. -/
def hubOn (output : String) (cores : Nat) (cfg : SpeechConfig) : Hub :=
  let chosen := chooseSpeechDevices (parseDeviceList output) cores cfg
  Hub.start chosen.sttOnGpu chosen.ttsOnGpu

section Listing

/-- Space, the name of a Vulkan device, space and a colon. -/
def Lists (line name : List Char) : Prop :=
  ∃ front digits gap rest, line = front ++ (vulkan ++ digits ++ gap ++ ':' :: rest) ∧
    (∀ c ∈ front, isWhitespace c = true) ∧ (∀ c ∈ digits, c.isDigit = true) ∧
    (∀ c ∈ gap, isWhitespace c = true) ∧ name = vulkan ++ digits

theorem isWhitespace_of_isDigit {c : Char} (h : c.isDigit = true) :
    isWhitespace c = false := by
  simp only [Char.isDigit, Bool.and_eq_true, decide_eq_true_eq] at h
  have hlow : 48 ≤ c.toNat := UInt32.le_iff_toNat_le.mp h.1
  have hhigh : c.toNat ≤ 57 := UInt32.le_iff_toNat_le.mp h.2
  simp [isWhitespace]
  omega

theorem drop_vulkan (digits : List Char) : (vulkan ++ digits).drop 6 = digits := rfl

theorem deviceName_of_lists {line name : List Char} (h : Lists line name) :
    deviceName line = some name := by
  obtain ⟨front, digits, gap, rest, rfl, hfront, hdigits, hgap, rfl⟩ := h
  have hcolon : ':' ∉ vulkan ++ digits ++ gap := by
    intro hmem
    rw [List.mem_append, List.mem_append] at hmem
    rcases hmem with (hmem | hmem) | hmem
    · revert hmem
      decide
    · exact absurd (hdigits _ hmem) (by decide)
    · exact absurd (hgap _ hmem) (by decide)
  have hhead : ∀ c ∈ (vulkan ++ digits ++ gap).head?, isWhitespace c = false := by
    intro c hc
    obtain rfl := Option.some.inj hc
    decide
  have hhead' : ∀ c ∈ (vulkan ++ digits).head?, isWhitespace c = false := by
    intro c hc
    obtain rfl := Option.some.inj hc
    decide
  have hlast : ∀ c ∈ (vulkan ++ digits).getLast?, isWhitespace c = false := by
    intro c hc
    rcases List.eq_nil_or_concat digits with rfl | ⟨digits, d, rfl⟩
    · obtain rfl := Option.some.inj hc
      decide
    · rw [List.concat_eq_append, ← List.append_assoc, List.getLast?_concat] at hc
      obtain rfl := Option.some.inj hc
      exact isWhitespace_of_isDigit (hdigits d (by simp))
  have hname : trimEnds isWhitespace (vulkan ++ digits ++ gap) = vulkan ++ digits := by
    exact trimEnds_append (List.forall_mem_nil _) hgap hhead' hlast
  rw [deviceName, trimEnds_append_cons hfront hhead (by decide), splitOnce_append hcolon]
  change (if vulkan <+: trimEnds isWhitespace (vulkan ++ digits ++ gap) ∧ _ then _ else _) = _
  rw [hname]
  refine if_pos ⟨List.prefix_append _ _, ?_⟩
  rw [drop_vulkan, List.all_eq_true]
  exact hdigits

theorem lists_of_deviceName {line name : List Char} (h : deviceName line = some name) :
    Lists line name := by
  obtain ⟨⟨before, after⟩, hsplit, hname⟩ := Option.bind_eq_some_iff.mp h
  obtain ⟨htrimmed, -⟩ := splitOnce_eq_some_iff.mp hsplit
  obtain ⟨front, back, hline, hfront, -⟩ := exists_eq_trimEnds isWhitespace line
  obtain ⟨front', gap, hbefore, hfront', hgap⟩ := exists_eq_trimEnds isWhitespace before
  simp only at hname
  split at hname
  · rename_i hvulkan
    obtain ⟨⟨digits, hdigits⟩, hall⟩ := hvulkan
    obtain rfl := Option.some.inj hname
    rw [← hdigits, drop_vulkan, List.all_eq_true] at hall
    refine ⟨front ++ front', digits, gap, after ++ back, ?_, ?_, hall, hgap, hdigits.symm⟩
    · rw [hline, htrimmed, hbefore, ← hdigits]
      simp
    · intro c hc
      exact (List.mem_append.mp hc).elim (hfront c) (hfront' c)
  · cases hname

theorem deviceName_eq_some_iff {line name : List Char} :
    deviceName line = some name ↔ Lists line name :=
  ⟨lists_of_deviceName, deviceName_of_lists⟩

theorem mem_parseDeviceList_iff {output name : String} :
    name ∈ parseDeviceList output ↔
      ∃ line ∈ lines output, Lists line.toList name.toList := by
  rw [parseDeviceList, List.mem_filterMap]
  constructor
  · rintro ⟨line, hline, h⟩
    obtain ⟨letters, hletters, rfl⟩ := Option.map_eq_some_iff.mp h
    exact ⟨line, hline, by rw [String.toList_ofList]; exact deviceName_eq_some_iff.mp hletters⟩
  · rintro ⟨line, hline, h⟩
    exact ⟨line, hline, by rw [deviceName_eq_some_iff.mpr h, Option.map_some, String.ofList_toList]⟩

end Listing

section Choosing

variable {u : Unicode} {output : String} {cores : Nat} {threads : Option Nat}

/-- The settings of a user who leaves the devices to the hub. -/
def untouched (threads : Option Nat) : SpeechConfig :=
  { device := none, backend := .auto, threads }

theorem toLower_vulkan_ne_cpu (digits : List Char) :
    (vulkan ++ digits).map Char.toLower ≠ "cpu".toList := by
  intro h
  have hhead : some 'v' = some 'c' := congrArg List.head? h
  revert hhead
  decide

theorem hubOn_nil (h : parseDeviceList output = []) :
    hubOn output cores (untouched threads) = Hub.start false false := by
  have hdevice : (chooseSpeechDevices [] cores (untouched threads)).device = some "cpu" :=
    rfl
  have hbackend : (chooseSpeechDevices [] cores (untouched threads)).backend = .cpu := rfl
  have hstt : (chooseSpeechDevices [] cores (untouched threads)).sttOnGpu = false := by
    rw [SpeechConfig.sttOnGpu, hdevice]
    decide
  have htts : (chooseSpeechDevices [] cores (untouched threads)).ttsOnGpu = false := by
    rw [SpeechConfig.ttsOnGpu, hbackend]
    decide
  rw [hubOn, h]
  show Hub.start (SpeechConfig.sttOnGpu _) (SpeechConfig.ttsOnGpu _) = _
  rw [hstt, htts]

theorem hubOn_cons (h : parseDeviceList output ≠ []) :
    hubOn output cores (untouched threads) = Hub.start true true := by
  obtain ⟨name, names, hnames⟩ := List.exists_cons_of_ne_nil h
  have hmem : name ∈ parseDeviceList output := by
    rw [hnames]
    exact List.mem_cons_self
  obtain ⟨line, -, front, digits, gap, rest, -, -, -, -, hname⟩ :=
    mem_parseDeviceList_iff.mp hmem
  have hstt : decide (name.toList.map Char.toLower ≠ "cpu".toList) = true := by
    rw [hname]
    exact decide_eq_true (toLower_vulkan_ne_cpu digits)
  rw [hubOn, hnames]
  show Hub.start (decide (name.toList.map Char.toLower ≠ "cpu".toList)) true = _
  rw [hstt]

theorem hasFaultSign_timedOut (u : Unicode) : hasFaultSign u "timed out" = true := by
  have hlower : u.toLowercase "timed out".toList = "timed out".toList :=
    (@Unicode.toLowercaseFrom_ascii u "timed out".toList (by decide) []).trans (by decide)
  rw [hasFaultSign, hlower]
  decide +kernel

/-- One synthesis that runs into its timeout. -/
def timedOut (r : Nat) : List Act :=
  [.ask r .tts, .acquire r, .finish r (.error "timed out"), .report r]

theorem run_timedOut {h : Hub} {r : Nat} (hidle : h.calls r = .idle)
    (hfree : h.holder = none) :
    (run (act u) (timedOut r) h).gpu = h.gpu.failure u .tts "timed out" ∧
      (run (act u) (timedOut r) h).holder = none ∧
      ∀ r', r' ≠ r → (run (act u) (timedOut r) h).calls r' = h.calls r' := by
  have hrun : run (act u) (timedOut r) h = act u (.report r)
      (act u (.finish r (.error "timed out"))
        (act u (.acquire r) (act u (.ask r .tts) h))) := rfl
  have hacquire := @act_acquire u (h.setCall r (.waiting .tts)) r .tts (if_pos rfl) hfree
  rw [hrun, act_ask hidle, hacquire, act_finish_tts (if_pos rfl), act_report (if_pos rfl)]
  refine ⟨rfl, rfl, ?_⟩
  intro r' hr'
  simp [Hub.setCall, hr']

theorem lost_of_three_timeouts (u : Unicode) :
    ∃ acts, (run (act u) acts (.start true true)).gpu.lost = true := by
  have hsign := hasFaultSign_timedOut u
  obtain ⟨hgpu, hfree, hcalls⟩ := @run_timedOut u (.start true true) 0 rfl rfl
  obtain ⟨hgpu', hfree', hcalls'⟩ := @run_timedOut u _ 1 (hcalls 1 (by decide)) hfree
  have hidle := (hcalls' 2 (by decide)).trans (hcalls 2 (by decide))
  obtain ⟨hgpu'', -, -⟩ := @run_timedOut u _ 2 hidle hfree'
  refine ⟨timedOut 0 ++ timedOut 1 ++ timedOut 2, ?_⟩
  rw [run_append, run_append, hgpu'', hgpu', hgpu]
  simp [Hub.start, Gpu.failure, Gpu.onGpu, Gpu.new, hsign, faultThreshold]

theorem not_lost_without_gpu (acts : List Act) :
    (run (act u) acts (.start false false)).gpu.lost = false := by
  have hcounts : Counts u false false (run (act u) acts (.start false false)) :=
    counts_run acts false false
  rw [← Bool.not_eq_true, hcounts.lost_iff]
  have hnone : counted u false false = fun _ => none := by
    funext report
    rcases report with ⟨r, engine, outcome⟩
    rcases engine with _ | _ <;> rfl
  rw [hnone, List.filterMap_none]
  exact not_hasStreak_nil id 2

end Choosing

/-- A hub that picks the devices itself can give up the GPU just where the device
list names a Vulkan device. -/
theorem can_be_lost_iff (u : Unicode) (output : String) (cores : Nat)
    (threads : Option Nat) :
    (∃ acts, (run (act u) acts (hubOn output cores (untouched threads))).gpu.lost = true) ↔
      ∃ line ∈ lines output, ∃ name, Lists line.toList name := by
  constructor
  · rintro ⟨acts, hlost⟩
    by_cases hnames : parseDeviceList output = []
    · rw [hubOn_nil hnames, not_lost_without_gpu] at hlost
      cases hlost
    · obtain ⟨name, hname⟩ := List.exists_mem_of_ne_nil _ hnames
      obtain ⟨line, hline, hlists⟩ := mem_parseDeviceList_iff.mp hname
      exact ⟨line, hline, _, hlists⟩
  · rintro ⟨line, hline, name, hlists⟩
    have hname : String.ofList name ∈ parseDeviceList output :=
      mem_parseDeviceList_iff.mpr ⟨line, hline, by rwa [String.toList_ofList]⟩
    rw [hubOn_cons (List.ne_nil_of_mem hname)]
    exact lost_of_three_timeouts u

end AssistantHub.SpeechDevices
