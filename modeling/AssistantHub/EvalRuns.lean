import AssistantHub.JsonValue
import AssistantHub.UnicodeText
import Mathlib.Data.List.Infix

namespace AssistantHub.EvalRuns

open AssistantHub.JsonValue
open AssistantHub.RustText (trim)
open AssistantHub.UnicodeText

/-- Rounds of tool calls per question before the run gives up. -/
def maxRounds : Nat := 4

structure ToolDef where
  name : String
  description : String
  parameters : Value

/-- The tool that a question needs, with a text that each of its arguments must contain. -/
structure ToolExpect where
  name : String
  args : List (String × String)

structure Question where
  id : String
  text : String
  tool : Option ToolExpect
  allowTools : List String
  forbidTools : List String
  results : List (String × String)
  answerAny : List String
  answerAll : List String
  answerNone : List String
  answerMinChars : Option Nat
  knownFailure : Bool

structure Fixture where
  version : Nat
  system : String
  fillerDevices : Nat
  tools : List ToolDef
  questions : List Question

/-- What the standard library and the reader of JSON do with texts. -/
structure Texts where
  unicode : Unicode
  printable : Char → Bool
  parse : String → Except String Value
  print : Value → String

structure RunOptions where
  repeats : Nat
  temperature : Number
  topP : Number
  only : List String

def fillerDevice (i : Nat) : String :=
  s!"\n- names: Room {i} Temperature\n  domain: sensor\n  state: '{18 + i % 7}.5'\n  attributes:\n    unit_of_measurement: °C\n  areas: Room {i}"

/-- The system prompt: the house, plus filler sensors. -/
def Fixture.systemPrompt (fx : Fixture) : String :=
  (List.range fx.fillerDevices).foldl (fun prompt i => prompt ++ fillerDevice i) fx.system

def ToolDef.json (t : ToolDef) : Value :=
  .object [("function", .object [("description", .string t.description),
    ("name", .string t.name), ("parameters", t.parameters)]), ("type", .string "function")]

/-- A request that fails, or the status and the text of the reply. -/
inductive Answer where
  | unsent (err : String)
  | reply (status : String) (success : Bool) (text : String)

def chat (lib : Texts) : Answer → Except String Value
  | .unsent err => .error err
  | .reply status success text =>
      if !success then .error s!"HTTP {status}: {String.ofList (text.toList.take 200)}"
      else
        match lib.parse text with
        | .ok value => .ok value
        | .error err => .error s!"the answer is no JSON: {err}"

def debugChar (lib : Texts) (c : Char) : List Char :=
  if c.toNat = 0 then ['\\', '0']
  else if c.toNat = 9 then ['\\', 't']
  else if c.toNat = 10 then ['\\', 'n']
  else if c.toNat = 13 then ['\\', 'r']
  else if c.toNat = 34 ∨ c.toNat = 92 then ['\\', c]
  else if lib.printable c then [c]
  else ['\\', 'u', Char.ofNat 123] ++ Nat.toDigits 16 c.toNat ++ [Char.ofNat 125]

/-- A text as `{:?}` shows it. -/
def debug (lib : Texts) (s : String) : String :=
  String.ofList (Char.ofNat 34 :: s.toList.flatMap (debugChar lib) ++ [Char.ofNat 34])

def debugList (lib : Texts) (texts : List String) : String :=
  "[" ++ ", ".intercalate (texts.map (debug lib)) ++ "]"

def contains (lib : Texts) (text needle : String) : Bool :=
  lib.unicode.toLowercase needle.toList <:+: lib.unicode.toLowercase text.toList

abbrev Call := String × Value

def argumentText (lib : Texts) : Value → String
  | .string s => s
  | .null => ""
  | other => lib.print other

/-- Checks the tool calls of one question. Returns the reasons for a failure. -/
def checkTools (lib : Texts) (q : Question) (calls : List Call) : List String :=
  (calls.flatMap fun c =>
    if c.1 ∈ q.forbidTools then [s!"called the forbidden tool {c.1}"] else []) ++
  match q.tool with
  | some want =>
      match calls.find? fun c => c.1 = want.name with
      | none => [s!"did not call {want.name}"]
      | some c => want.args.flatMap fun a =>
          let value := argumentText lib (c.2.index a.1)
          if contains lib value a.2 then []
          else [s!"argument {a.1}={debug lib value} lacks {debug lib a.2}"]
  | none => calls.flatMap fun c =>
      if c.1 ∉ q.allowTools ∧ c.1 ∉ q.forbidTools then [s!"called {c.1}, but no tool is needed"]
      else []

def checkAnswer (lib : Texts) (q : Question) (answer : String) : List String :=
  let least := q.answerMinChars.getD 1
  (if (trim answer).length < least then [s!"the answer has fewer than {least} characters"]
    else []) ++
  (if !q.answerAny.isEmpty && !q.answerAny.any (contains lib answer) then
    [s!"the answer has none of {debugList lib q.answerAny}"] else []) ++
  (q.answerAll.flatMap fun n =>
    if contains lib answer n then [] else [s!"the answer lacks {debug lib n}"]) ++
  q.answerNone.flatMap fun n =>
    if contains lib answer n then [s!"the answer has {debug lib n}"] else []

/-- The token counts of the engine. -/
structure Timings where
  promptN : UInt64
  maxRoundPromptN : UInt64
  cached : UInt64
  predictedN : UInt64

def Timings.zero : Timings := ⟨0, 0, 0, 0⟩

def Timings.add (t : Timings) (resp : Value) : Timings :=
  let timings := resp.index "timings"
  let promptN := (timings.index "prompt_n").asU64.getD 0
  { promptN := t.promptN + promptN
    maxRoundPromptN := max t.maxRoundPromptN promptN
    predictedN := t.predictedN + (timings.index "predicted_n").asU64.getD 0
    cached := t.cached +
      (((resp.indexAll ["usage", "prompt_tokens_details", "cached_tokens"]).asU64).or
        (timings.index "cache_n").asU64).getD 0 }

/-- The state of one question; `sent` holds all requests so far. -/
structure Talk where
  messages : List Value
  calls : List Call
  reasons : List String
  timings : Timings
  toolError : Bool
  error : Option String
  answer : String
  rounds : Nat
  sent : List Value

def message (resp : Value) : Value := ((resp.index "choices").item 0).index "message"

def toolCalls (resp : Value) : List Value :=
  ((message resp).index "tool_calls").asArray.getD []

def content (resp : Value) : String := ((message resp).index "content").asStr.getD ""

def callName (call : Value) : String := (call.indexAll ["function", "name"]).asStr.getD ""

def callArguments (call : Value) : String :=
  (call.indexAll ["function", "arguments"]).asStr.getD "\x7b\x7d"

def callId (rounds : Nat) (call : Value × Nat) : String :=
  (call.1.index "id").asStr.getD s!"call_{rounds}_{call.2}"

/-- Home Assistant sends the text and the tool calls back, never the thinking. -/
def assistantMessage (resp : Value) : Value :=
  .object [("content", .string (content resp)), ("role", .string "assistant"),
    ("tool_calls", .array (toolCalls resp))]

def toolMessage (q : Question) (rounds : Nat) (call : Value × Nat) : Value :=
  .object [("content", .string ((q.results.lookup (callName call.1)).getD "ok")),
    ("role", .string "tool"), ("tool_call_id", .string (callId rounds call))]

def argumentError (lib : Texts) (call : Value) : List String :=
  match lib.parse (callArguments call) with
  | .ok _ => []
  | .error _ => [s!"the arguments of {callName call} are no JSON: {callArguments call}"]

def readCall (lib : Texts) (call : Value) : Call :=
  match lib.parse (callArguments call) with
  | .ok args => (callName call, args)
  | .error _ => (callName call, .null)

/-- One call of a tool, with its scripted result. -/
def addCall (lib : Texts) (q : Question) (t : Talk) (call : Value × Nat) : Talk :=
  { t with
    messages := t.messages ++ [toolMessage q t.rounds call]
    calls := t.calls ++ [readCall lib call.1]
    reasons := t.reasons ++ argumentError lib call.1
    toolError := t.toolError || !(argumentError lib call.1).isEmpty }

section Loop

variable (lib : Texts) (server : List Value → Answer) (fx : Fixture) (q : Question)
variable (opts : RunOptions) (model : String)

def body (messages : List Value) : Value :=
  .object [("messages", .array messages), ("model", .string model), ("stream", .bool false),
    ("temperature", .number opts.temperature), ("tools", .array (fx.tools.map ToolDef.json)),
    ("top_p", .number opts.topP)]

/-- The loop of a question; `left` rounds are left. -/
def talk : Nat → Talk → Talk
  | 0, t =>
      { t with
        reasons := t.reasons ++ [s!"still calling tools after {maxRounds} rounds"]
        toolError := true }
  | left + 1, t =>
      let t := { t with
        rounds := t.rounds + 1
        sent := t.sent ++ [body fx opts model t.messages] }
      match chat lib (server t.sent) with
      | .error err =>
          { t with error := some err, reasons := t.reasons ++ [s!"request failed: {err}"] }
      | .ok resp =>
          let t := { t with timings := t.timings.add resp }
          if (toolCalls resp).isEmpty then { t with answer := content resp }
          else
            let t := { t with messages := t.messages ++ [assistantMessage resp] }
            talk left ((toolCalls resp).zipIdx.foldl (addCall lib q) t)

def startMessages : List Value :=
  [.object [("content", .string fx.systemPrompt), ("role", .string "system")],
    .object [("content", .string q.text), ("role", .string "user")]]

/-- The result of one question in one repeat. -/
structure Sample where
  id : String
  repetition : Nat
  knownFailure : Bool
  correct : Bool
  reasons : List String
  emptyReply : Bool
  toolError : Bool
  error : Option String
  tools : List String
  answer : String
  rounds : Nat
  timings : Timings

def sample (repetition : Nat) (t : Talk) : Sample :=
  let emptyReply := t.error.isNone && (trim t.answer).isEmpty
  let toolReasons := checkTools lib q t.calls
  let reasons :=
    if t.error.isNone then
      t.reasons ++ toolReasons ++ (if emptyReply then ["the reply is empty"] else []) ++
        checkAnswer lib q t.answer
    else t.reasons
  { id := q.id
    repetition := repetition
    knownFailure := q.knownFailure
    correct := reasons.isEmpty
    reasons := reasons
    emptyReply := emptyReply
    toolError := t.toolError || (t.error.isNone && !toolReasons.isEmpty)
    error := t.error
    tools := t.calls.map Prod.fst
    answer := t.answer
    rounds := t.rounds
    timings := t.timings }

def begin (past : List Value) : Talk :=
  { messages := startMessages fx q
    calls := []
    reasons := []
    timings := .zero
    toolError := false
    error := none
    answer := ""
    rounds := 0
    sent := past }

/-- A question after the requests of the questions before it. -/
def runQuestion (repetition : Nat) (past : List Value) : Sample × List Value :=
  let t := talk lib server fx q opts model maxRounds (begin fx q past)
  (sample lib q repetition t, t.sent)

/-- One question more: its sample, and the requests so far. -/
def addSample (server : List Value → Answer) (repetition : Nat)
    (state : List Sample × List Value) (q : Question) : List Sample × List Value :=
  let result := runQuestion lib server fx q opts model repetition state.2
  (state.1 ++ [result.1], result.2)

def modelName (models : Answer) : String :=
  match models with
  | .reply _ true text =>
      match lib.parse text with
      | .ok v => ((((v.index "data").item 0).index "id").asStr).getD "local"
      | .error _ => "local"
  | _ => "local"

/-- The questions that are asked. -/
def chosen : List Question :=
  fx.questions.filter fun q => opts.only.isEmpty || decide (q.id ∈ opts.only)

/-- Runs the questions `repeat` times each, in order. -/
def run (models : Answer) : Except String (List Sample) :=
  let model := modelName lib models
  let questions := chosen fx opts
  if questions.isEmpty then .error s!"no question matches {debugList lib opts.only}"
  else
    .ok ((List.range (max opts.repeats 1)).foldl (fun state repetition =>
      questions.foldl (addSample lib fx opts model server repetition) state) ([], [])).1

end Loop

section Turns

variable {lib : Texts} {server : List Value → Answer} {fx : Fixture} {q : Question}
variable {opts : RunOptions} {model : String}

/-- A reply with tool calls, in a round. -/
structure Turn where
  round : Nat
  resp : Value

/-- What goes back to the model: its text and its calls, and a result for each call. -/
def Turn.messages (q : Question) (turn : Turn) : List Value :=
  assistantMessage turn.resp :: (toolCalls turn.resp).zipIdx.map (toolMessage q turn.round)

def Turn.calls (lib : Texts) (turn : Turn) : List Call := (toolCalls turn.resp).map (readCall lib)

def Turn.errors (lib : Texts) (turn : Turn) : List String :=
  (toolCalls turn.resp).flatMap (argumentError lib)

/-- How a question ends: no more rounds, a request that fails, or an answer. -/
inductive Ending where
  | exhausted
  | failed (err : String)
  | answered (resp : Value)

/-- Only the last request, if it fails or is answered by a text, belongs to no turn. -/
def Ending.requests : Ending → Nat
  | .exhausted => 0
  | _ => 1

def Ending.reasons : Ending → List String
  | .exhausted => [s!"still calling tools after {maxRounds} rounds"]
  | .failed err => [s!"request failed: {err}"]
  | .answered _ => []

def Ending.error : Ending → Option String
  | .failed err => some err
  | _ => none

def Ending.answer : Ending → String
  | .answered resp => content resp
  | _ => ""

theorem foldl_addCall (calls : List (Value × Nat)) (t : Talk) :
    calls.foldl (addCall lib q) t =
      { t with
        messages := t.messages ++ calls.map (toolMessage q t.rounds)
        calls := t.calls ++ calls.map fun c => readCall lib c.1
        reasons := t.reasons ++ calls.flatMap fun c => argumentError lib c.1
        toolError := t.toolError || calls.any fun c => !(argumentError lib c.1).isEmpty } := by
  induction calls generalizing t with
  | nil => simp
  | cons call calls ih =>
      rw [List.foldl_cons, ih]
      simp [addCall, Bool.or_assoc]

theorem not_isEmpty_flatMap {α β : Type*} (f : α → List β) (l : List α) :
    (!(l.flatMap f).isEmpty) = l.any fun a => !(f a).isEmpty := by
  induction l with
  | nil => rfl
  | cons a l ih =>
      rw [List.flatMap_cons, List.any_cons, ← ih]
      rcases f a with _ | ⟨b, rest⟩ <;> rfl

/-- The state after a turn. -/
def Talk.turn (lib : Texts) (q : Question) (t : Talk) (body : Value) (turn : Turn) : Talk :=
  { t with
    messages := t.messages ++ turn.messages q
    calls := t.calls ++ turn.calls lib
    reasons := t.reasons ++ turn.errors lib
    toolError := t.toolError || !(turn.errors lib).isEmpty
    timings := t.timings.add turn.resp
    rounds := t.rounds + 1
    sent := t.sent ++ [body] }

theorem rounds_turn (t : Talk) (body : Value) (turn : Turn) :
    (t.turn lib q body turn).rounds = t.rounds + 1 := rfl

theorem talk_turn {left : Nat} {t : Talk} {resp : Value}
    (hresp : chat lib (server (t.sent ++ [body fx opts model t.messages])) = .ok resp)
    (hcalls : toolCalls resp ≠ []) :
    talk lib server fx q opts model (left + 1) t =
      talk lib server fx q opts model left
        (t.turn lib q (body fx opts model t.messages) ⟨t.rounds + 1, resp⟩) := by
  have hempty : (toolCalls resp).isEmpty = false := List.isEmpty_eq_false_iff.mpr hcalls
  rw [talk]
  simp only [hresp, hempty, Bool.false_eq_true, if_false, foldl_addCall]
  congr 1
  have hlist : (toolCalls resp).zipIdx.map Prod.fst = toolCalls resp := List.zipIdx_map_fst ..
  have hmap : ((toolCalls resp).zipIdx.map fun c => readCall lib c.1) =
      (toolCalls resp).map (readCall lib) := by
    conv_rhs => rw [← hlist, List.map_map]
    rfl
  have hflat : ((toolCalls resp).zipIdx.flatMap fun c => argumentError lib c.1) =
      (toolCalls resp).flatMap (argumentError lib) := by
    conv_rhs => rw [← hlist, List.flatMap_map]
  have hany : ((toolCalls resp).zipIdx.any fun c => !(argumentError lib c.1).isEmpty) =
      !((toolCalls resp).flatMap (argumentError lib)).isEmpty := by
    rw [not_isEmpty_flatMap]
    conv_rhs => rw [← hlist, List.any_map]
    rfl
  rw [Talk.turn, Turn.messages, Turn.calls, Turn.errors, hmap, hflat, hany, List.append_assoc]
  rfl

/-- The request of a turn, after the turns before it. -/
def request (fx : Fixture) (q : Question) (opts : RunOptions) (model : String)
    (messages : List Value) (turns : List Turn) (k : Nat) : Value :=
  body fx opts model (messages ++ (turns.take k).flatMap (Turn.messages q))

/-- What the reply to the last request was. -/
def Ending.Replied (lib : Texts) (server : List Value → Answer) (sent : List Value) :
    Ending → Prop
  | .exhausted => True
  | .failed err => chat lib (server sent) = .error err
  | .answered resp => chat lib (server sent) = .ok resp ∧ toolCalls resp = []

/-- What the rest of the loop does: the turns, and the end. -/
structure Talked (lib : Texts) (server : List Value → Answer) (fx : Fixture) (q : Question)
    (opts : RunOptions) (model : String) (left : Nat) (t t' : Talk) (turns : List Turn)
    (ending : Ending) : Prop where
  few : turns.length + ending.requests ≤ left
  full : ending = .exhausted → turns.length = left
  rounds : t'.rounds = t.rounds + (turns.length + ending.requests)
  sent : t'.sent = t.sent ++ (List.range (turns.length + ending.requests)).map
    (request fx q opts model t.messages turns)
  calls : t'.calls = t.calls ++ turns.flatMap (Turn.calls lib)
  reasons : t'.reasons = t.reasons ++ (turns.flatMap (Turn.errors lib) ++ ending.reasons)
  error : t'.error = ending.error.or t.error
  answer : t'.answer = if ending.answer = "" then t.answer else ending.answer
  replies : ∀ i turn, turns[i]? = some turn →
    turn.round = t.rounds + (i + 1) ∧ toolCalls turn.resp ≠ [] ∧
      chat lib (server (t.sent ++ (List.range (i + 1)).map
        (request fx q opts model t.messages turns))) = .ok turn.resp
  last : ending.Replied lib server t'.sent

theorem request_zero (messages : List Value) (turns : List Turn) :
    request fx q opts model messages turns 0 = body fx opts model messages := by
  rw [request, List.take_zero, List.flatMap_nil, List.append_nil]

theorem request_succ (messages : List Value) (turn : Turn) (turns : List Turn) (k : Nat) :
    request fx q opts model messages (turn :: turns) (k + 1) =
      request fx q opts model (messages ++ turn.messages q) turns k := by
  rw [request, request, List.take_succ_cons, List.flatMap_cons, List.append_assoc]

theorem map_request_succ (messages : List Value) (turn : Turn) (turns : List Turn) (n : Nat) :
    (List.range (n + 1)).map (request fx q opts model messages (turn :: turns)) =
      body fx opts model messages ::
        (List.range n).map (request fx q opts model (messages ++ turn.messages q) turns) := by
  rw [List.range_succ_eq_map, List.map_cons, request_zero, List.map_map]
  congr 1
  apply List.map_congr_left
  intro k _
  exact request_succ messages turn turns k

theorem talked_turn {left : Nat} {t t' : Talk} {resp : Value} {turns : List Turn}
    {ending : Ending}
    (hresp : chat lib (server (t.sent ++ [body fx opts model t.messages])) = .ok resp)
    (hcalls : toolCalls resp ≠ [])
    (h : Talked lib server fx q opts model left
      (t.turn lib q (body fx opts model t.messages) ⟨t.rounds + 1, resp⟩) t' turns ending) :
    Talked lib server fx q opts model (left + 1) t t' (⟨t.rounds + 1, resp⟩ :: turns) ending := by
  have hlength : ∀ n, (Turn.mk (t.rounds + 1) resp :: turns).length + n =
      turns.length + n + 1 := by
    intro n
    rw [List.length_cons]
    omega
  refine ⟨?_, ?_, ?_, ?_, ?_, ?_, h.error, h.answer, ?_, h.last⟩
  · rw [hlength]
    exact Nat.succ_le_succ h.few
  · intro hending
    rw [List.length_cons, h.full hending]
  · rw [h.rounds, hlength, rounds_turn]
    omega
  · rw [h.sent, hlength, map_request_succ, Talk.turn, List.append_assoc]
    rfl
  · rw [h.calls, List.flatMap_cons, Talk.turn, List.append_assoc]
  · rw [h.reasons, List.flatMap_cons, Talk.turn]
    simp only [List.append_assoc]
  · intro i turn hi
    rcases i with _ | i
    · obtain rfl := Option.some.inj hi
      refine ⟨rfl, hcalls, ?_⟩
      rw [map_request_succ]
      exact hresp
    · obtain ⟨hround, hsome, hreply⟩ := h.replies i turn hi
      refine ⟨?_, hsome, ?_⟩
      · rw [hround, rounds_turn]
        omega
      · rw [map_request_succ]
        rw [Talk.turn, List.append_assoc] at hreply
        exact hreply

/-- The rest of the loop without a turn. -/
theorem talked_end {left : Nat} {t t' : Talk} {ending : Ending} (hfew : ending.requests ≤ left)
    (hfull : ending = .exhausted → left = 0)
    (hrounds : t'.rounds = t.rounds + ending.requests)
    (hsent : t'.sent = t.sent ++
      (List.range ending.requests).map (request fx q opts model t.messages []))
    (hcalls : t'.calls = t.calls) (hreasons : t'.reasons = t.reasons ++ ending.reasons)
    (herror : t'.error = ending.error.or t.error)
    (hanswer : t'.answer = if ending.answer = "" then t.answer else ending.answer)
    (hlast : ending.Replied lib server t'.sent) :
    Talked lib server fx q opts model left t t' [] ending := by
  refine ⟨?_, ?_, ?_, ?_, ?_, hreasons, herror, hanswer, nofun, hlast⟩
  · rwa [List.length_nil, Nat.zero_add]
  · intro hending
    exact (hfull hending).symm
  · rwa [List.length_nil, Nat.zero_add]
  · rwa [List.length_nil, Nat.zero_add]
  · rw [hcalls, List.flatMap_nil, List.append_nil]

/-- From any state the loop comes to an end by turns. -/
theorem talk_spec (left : Nat) (t : Talk) (herror : t.error = none) (hanswer : t.answer = "") :
    ∃ turns ending, Talked lib server fx q opts model left t
      (talk lib server fx q opts model left t) turns ending := by
  induction left generalizing t with
  | zero =>
      exact ⟨[], .exhausted, talked_end le_rfl (fun _ => rfl) rfl (List.append_nil _).symm rfl rfl
        rfl rfl trivial⟩
  | succ left ih =>
      have hone : (List.range 1).map (request fx q opts model t.messages []) =
          [body fx opts model t.messages] := congrArg (fun v => [v]) (request_zero _ _)
      rcases hresp : chat lib (server (t.sent ++ [body fx opts model t.messages])) with err | resp
      · refine ⟨[], .failed err, talked_end (Nat.succ_pos left) nofun ?_ ?_ ?_ ?_ ?_ ?_ ?_⟩
        all_goals simp only [talk, hresp]
        · rfl
        · exact congrArg _ hone.symm
        · rfl
        · rfl
        · exact (if_pos rfl).symm
        · exact hresp
      · by_cases hcalls : toolCalls resp = []
        · have hempty : (toolCalls resp).isEmpty = true := List.isEmpty_iff.mpr hcalls
          refine ⟨[], .answered resp, talked_end (Nat.succ_pos left) nofun ?_ ?_ ?_ ?_ ?_ ?_ ?_⟩
          all_goals simp only [talk, hresp, hempty, if_true]
          · rfl
          · exact congrArg _ hone.symm
          · exact (List.append_nil _).symm
          · rfl
          · rw [hanswer]
            split
            · rename_i hnone
              exact hnone
            · rfl
          · exact ⟨hresp, hcalls⟩
        · rw [talk_turn hresp hcalls]
          obtain ⟨turns, ending, h⟩ := ih
            (t.turn lib q (body fx opts model t.messages) ⟨t.rounds + 1, resp⟩) herror hanswer
          exact ⟨_ :: turns, ending, talked_turn hresp hcalls h⟩

/-- No forbidden tool was called, and the tool that is needed with the arguments that are
needed; without such a tool only tools that are allowed. -/
structure ToolsRight (lib : Texts) (q : Question) (calls : List Call) : Prop where
  notForbidden : ∀ c ∈ calls, c.1 ∉ q.forbidTools
  needed : ∀ want, q.tool = some want →
    ∃ c, (calls.find? fun c => c.1 = want.name) = some c ∧
      ∀ a ∈ want.args, contains lib (argumentText lib (c.2.index a.1)) a.2 = true
  allowed : q.tool = none → ∀ c ∈ calls, c.1 ∈ q.allowTools

structure AnswerRight (lib : Texts) (q : Question) (answer : String) : Prop where
  long : q.answerMinChars.getD 1 ≤ (trim answer).length
  some : trim answer ≠ ""
  any : q.answerAny ≠ [] → ∃ n ∈ q.answerAny, contains lib answer n = true
  all : ∀ n ∈ q.answerAll, contains lib answer n = true
  none : ∀ n ∈ q.answerNone, contains lib answer n = false

theorem flatMap_if_eq_nil {α β : Type*} {l : List α} {p : α → Prop} [DecidablePred p]
    {f : α → List β} (hf : ∀ a, f a ≠ []) :
    (l.flatMap fun a => if p a then f a else []) = [] ↔ ∀ a ∈ l, ¬p a := by
  rw [List.flatMap_eq_nil_iff]
  refine forall₂_congr fun a _ => ?_
  split
  · rename_i h
    exact iff_of_false (hf a) (not_not.mpr h)
  · rename_i h
    exact iff_of_true rfl h

theorem flatMap_unless_eq_nil {α β : Type*} {l : List α} {p : α → Prop} [DecidablePred p]
    {f : α → List β} (hf : ∀ a, f a ≠ []) :
    (l.flatMap fun a => if p a then [] else f a) = [] ↔ ∀ a ∈ l, p a := by
  rw [List.flatMap_eq_nil_iff]
  refine forall₂_congr fun a _ => ?_
  split
  · rename_i h
    exact iff_of_true rfl h
  · rename_i h
    exact iff_of_false (hf a) h

theorem checkTools_eq_nil_iff {calls : List Call} :
    checkTools lib q calls = [] ↔ ToolsRight lib q calls := by
  rw [checkTools, List.append_eq_nil_iff, flatMap_if_eq_nil fun _ => List.cons_ne_nil _ _]
  constructor
  · rintro ⟨hforbidden, hrest⟩
    refine ⟨hforbidden, ?_, ?_⟩
    · intro want hwant
      rw [hwant] at hrest
      dsimp only at hrest
      split at hrest
      · exact absurd hrest (List.cons_ne_nil _ _)
      · rename_i c hc
        exact ⟨c, hc, (flatMap_unless_eq_nil fun _ => List.cons_ne_nil _ _).mp hrest⟩
    · intro hnone c hc
      rw [hnone] at hrest
      have hno := (flatMap_if_eq_nil fun _ => List.cons_ne_nil _ _).mp hrest c hc
      by_contra hallowed
      exact hno ⟨hallowed, hforbidden c hc⟩
  · intro h
    refine ⟨h.notForbidden, ?_⟩
    rcases htool : q.tool with _ | want
    · refine (flatMap_if_eq_nil fun _ => List.cons_ne_nil _ _).mpr ?_
      rintro c hc ⟨hallowed, -⟩
      exact hallowed (h.allowed htool c hc)
    · obtain ⟨c, hc, hargs⟩ := h.needed want htool
      dsimp only
      rw [hc]
      exact (flatMap_unless_eq_nil fun _ => List.cons_ne_nil _ _).mpr hargs

theorem checkAnswer_eq_nil_iff {answer : String} (hsome : trim answer ≠ "") :
    checkAnswer lib q answer = [] ↔ AnswerRight lib q answer := by
  rw [checkAnswer, List.append_eq_nil_iff, List.append_eq_nil_iff, List.append_eq_nil_iff,
    flatMap_unless_eq_nil fun _ => List.cons_ne_nil _ _,
    flatMap_if_eq_nil fun _ => List.cons_ne_nil _ _]
  constructor
  · rintro ⟨⟨⟨hlong, hany⟩, hall⟩, hnone⟩
    refine ⟨?_, hsome, ?_, hall, fun n hn => Bool.not_eq_true _ ▸ hnone n hn⟩
    · split at hlong
      · exact absurd hlong (List.cons_ne_nil _ _)
      · rename_i hle
        exact not_lt.mp hle
    · intro hne
      split at hany
      · exact absurd hany (List.cons_ne_nil _ _)
      · rename_i hfound
        rw [List.isEmpty_eq_false_iff.mpr hne, Bool.not_false, Bool.true_and,
          Bool.not_eq_true', Bool.not_eq_false, List.any_eq_true] at hfound
        exact hfound
  · intro h
    refine ⟨⟨⟨if_neg (not_lt.mpr h.long), if_neg ?_⟩, h.all⟩,
      fun n hn => Bool.not_eq_true _ ▸ h.none n hn⟩
    rw [Bool.and_eq_true, Bool.not_eq_true', Bool.not_eq_true', List.isEmpty_eq_false_iff]
    rintro ⟨hne, hany⟩
    rw [List.any_eq_true.mpr (h.any hne)] at hany
    exact Bool.false_ne_true hany.symm

theorem correct_sample {repetition : Nat} {t : Talk} (herror : t.error = none) :
    (sample lib q repetition t).correct = true ↔
      t.reasons = [] ∧ ToolsRight lib q t.calls ∧ AnswerRight lib q t.answer := by
  have hcorrect : (sample lib q repetition t).correct =
      (t.reasons ++ checkTools lib q t.calls ++
        (if (trim t.answer).isEmpty then ["the reply is empty"] else []) ++
          checkAnswer lib q t.answer).isEmpty := by
    simp only [sample, herror, Option.isNone_none, Bool.true_and, if_true]
  rw [hcorrect, List.isEmpty_iff, List.append_eq_nil_iff, List.append_eq_nil_iff,
    List.append_eq_nil_iff, checkTools_eq_nil_iff]
  by_cases hempty : (trim t.answer).isEmpty = true
  · rw [if_pos hempty]
    constructor
    · rintro ⟨⟨-, h⟩, -⟩
      exact absurd h (List.cons_ne_nil _ _)
    · rintro ⟨-, -, h⟩
      exact absurd (String.isEmpty_iff.mp hempty) h.some
  · have hsome : trim t.answer ≠ "" := fun h => hempty (String.isEmpty_iff.mpr h)
    rw [if_neg hempty, checkAnswer_eq_nil_iff hsome]
    constructor
    · rintro ⟨⟨⟨hreasons, htools⟩, -⟩, hanswer⟩
      exact ⟨hreasons, htools, hanswer⟩
    · rintro ⟨hreasons, htools, hanswer⟩
      exact ⟨⟨⟨hreasons, htools⟩, rfl⟩, hanswer⟩

theorem correct_sample_error {repetition : Nat} {t : Talk} (herror : t.error ≠ none) :
    (sample lib q repetition t).correct = true ↔ t.reasons = [] := by
  have hsome : t.error.isNone = false := by
    rw [← Bool.not_eq_true, Option.isNone_iff_eq_none]
    exact herror
  simp only [sample, hsome, Bool.false_eq_true, if_false, List.isEmpty_iff]

end Turns

/-- A question is asked by turns: each request has the question and, for each reply so far,
its text and calls and one result for each call; the fourth request is the last. The answer
counts as correct exactly when it came within these rounds, all arguments were JSON, and the
calls and the text are right. -/
theorem question_run (lib : Texts) (server : List Value → Answer) (fx : Fixture) (q : Question)
    (opts : RunOptions) (model : String) (repetition : Nat) (past : List Value) :
    ∃ (turns : List Turn) (ending : Ending), turns.length + ending.requests ≤ 4 ∧
      (ending = .exhausted → turns.length = 4) ∧
        (runQuestion lib server fx q opts model repetition past).2 = past ++
            (List.range (turns.length + ending.requests)).map
              (request fx q opts model (startMessages fx q) turns) ∧
          (∀ i turn, turns[i]? = some turn →
            turn.round = i + 1 ∧ toolCalls turn.resp ≠ [] ∧
              chat lib (server (past ++ (List.range (i + 1)).map
                (request fx q opts model (startMessages fx q) turns))) = .ok turn.resp) ∧
            ending.Replied lib server
              (runQuestion lib server fx q opts model repetition past).2 ∧
              ((runQuestion lib server fx q opts model repetition past).1.correct = true ↔
                ∃ resp, ending = .answered resp ∧ (∀ turn ∈ turns, turn.errors lib = []) ∧
                  ToolsRight lib q (turns.flatMap (Turn.calls lib)) ∧
                    AnswerRight lib q (content resp)) := by
  obtain ⟨turns, ending, h⟩ := @talk_spec lib server fx q opts model 4 (begin fx q past) rfl rfl
  have hreplies : ∀ i turn, turns[i]? = some turn →
      turn.round = i + 1 ∧ toolCalls turn.resp ≠ [] ∧
        chat lib (server (past ++ (List.range (i + 1)).map
          (request fx q opts model (startMessages fx q) turns))) = .ok turn.resp := by
    intro i turn hi
    obtain ⟨hround, hrest⟩ := h.replies i turn hi
    exact ⟨hround.trans (Nat.zero_add _), hrest⟩
  refine ⟨turns, ending, h.few, h.full, h.sent, hreplies, h.last, ?_⟩
  show (sample lib q repetition (talk lib server fx q opts model 4 (begin fx q past))).correct =
    true ↔ _
  generalize talk lib server fx q opts model 4 (begin fx q past) = t at h ⊢
  have hreasons : t.reasons = turns.flatMap (Turn.errors lib) ++ ending.reasons := h.reasons
  have hcalls : t.calls = turns.flatMap (Turn.calls lib) := h.calls
  have herror : t.error = ending.error := by
    rw [h.error]
    exact Option.or_none
  have hanswer : t.answer = ending.answer := by
    rw [h.answer]
    split
    · rename_i hnone
      exact hnone.symm
    · rfl
  rcases ending with _ | err | resp
  · rw [correct_sample herror, hreasons]
    refine iff_of_false ?_ nofun
    rintro ⟨hnil, -⟩
    exact absurd (List.append_eq_nil_iff.mp hnil).2 (List.cons_ne_nil _ _)
  · have hsome : t.error ≠ none := by
      rw [herror]
      exact Option.some_ne_none err
    rw [correct_sample_error hsome, hreasons]
    refine iff_of_false ?_ nofun
    intro hnil
    exact absurd (List.append_eq_nil_iff.mp hnil).2 (List.cons_ne_nil _ _)
  · rw [correct_sample herror, hreasons, hcalls, hanswer]
    constructor
    · rintro ⟨hnil, htools, hright⟩
      exact ⟨resp, rfl, List.flatMap_eq_nil_iff.mp (List.append_eq_nil_iff.mp hnil).1, htools,
        hright⟩
    · rintro ⟨other, heq, herrors, htools, hright⟩
      obtain rfl := Ending.answered.inj heq
      exact ⟨List.append_eq_nil_iff.mpr ⟨List.flatMap_eq_nil_iff.mpr herrors, rfl⟩, htools,
        hright⟩

/-- A run asks all its questions in each repeat, in order. -/
theorem foldl_addSample (lib : Texts) (server : List Value → Answer) (fx : Fixture)
    (opts : RunOptions) (model : String) (repetition : Nat) (questions : List Question)
    (state : List Sample × List Value) :
    (questions.foldl (addSample lib fx opts model server repetition) state).1.map
        (fun s => (s.repetition, s.id)) =
      state.1.map (fun s => (s.repetition, s.id)) ++
        questions.map fun q => (repetition, q.id) := by
  induction questions generalizing state with
  | nil => rw [List.foldl_nil, List.map_nil, List.append_nil]
  | cons q questions ih =>
      rw [List.foldl_cons, ih, addSample, List.map_append, List.append_assoc]
      rfl

theorem run_samples {lib : Texts} {server : List Value → Answer} {fx : Fixture}
    {opts : RunOptions} {models : Answer} {samples : List Sample}
    (h : run lib server fx opts models = .ok samples) :
    samples.map (fun s => (s.repetition, s.id)) =
      (List.range (max opts.repeats 1)).flatMap fun repetition =>
        (chosen fx opts).map fun q => (repetition, q.id) := by
  rw [run] at h
  split at h
  · cases h
  · rw [← Except.ok.inj h]
    generalize List.range (max opts.repeats 1) = repeats
    have hgo : ∀ state : List Sample × List Value,
        (repeats.foldl (fun state repetition => (chosen fx opts).foldl
          (addSample lib fx opts (modelName lib models) server repetition) state) state).1.map
            (fun s => (s.repetition, s.id)) =
          state.1.map (fun s => (s.repetition, s.id)) ++ repeats.flatMap fun repetition =>
            (chosen fx opts).map fun q => (repetition, q.id) := by
      induction repeats with
      | nil =>
          intro state
          exact (List.append_nil _).symm
      | cons repetition repeats ih =>
          intro state
          rw [List.foldl_cons, ih, foldl_addSample, List.flatMap_cons, List.append_assoc]
    exact hgo ([], [])

end AssistantHub.EvalRuns
