import AssistantHub.JsonValue
import AssistantHub.SearchQueries
import AssistantHub.TrimmedEnds
import AssistantHub.WyomingFrames

namespace AssistantHub.McpTools

open AssistantHub.JsonValue
open AssistantHub.RustText (isWhitespace)
open AssistantHub.SearchQueries
open AssistantHub.TrimmedEnds
open AssistantHub.WyomingFrames

def protocolVersions : List String := ["2025-06-18", "2025-03-26", "2024-11-05"]

/-- A query that the search backend is asked, and the number of results. -/
abbrev Query := List Char × Nat

/-- What the tools need: the search, when it is on, and the day. -/
structure Tools where
  webSearch : Option (List Char → Nat → Except String Results)
  patterns : YearPatterns
  hostOf : List Char → Option (List Char)
  year : Int
  today : List Char

def webSearchDefinition : Value :=
  .object [("description", .string ("Searches the internet. Use it for news, current events, " ++
      "sports results and facts that can change. Your own knowledge is older than these " ++
      "results. For recent events, put the current year in the query. Returns a few short " ++
      "results with their source and date.")),
    ("inputSchema", .object [("properties", .object [
        ("max_results", .object [("description", .string "Number of results. Default 3."),
          ("maximum", number 5), ("minimum", number 1), ("type", .string "integer")]),
        ("query", .object [("description", .string "What to search for."),
          ("type", .string "string")])]),
      ("required", .array [.string "query"]), ("type", .string "object")]),
    ("name", .string "web_search")]

def content (text : List Char) : Value :=
  .array [.object [("text", .string (String.ofList text)), ("type", .string "text")]]

def toolError (text : List Char) : Value :=
  .object [("content", content text), ("isError", .bool true)]

def Tools.list (tools : Tools) : List Value :=
  if tools.webSearch.isSome then [webSearchDefinition] else []

/-- `args["max_results"].as_u64().map_or(3, |n| n.clamp(1, 5))` -/
def resultCount (args : Value) : Nat :=
  (args.index "max_results").asU64.elim 3 fun n => max 1 (min n.toNat 5)

/-- The result of a call, and what the search backend has been asked for it. -/
def Tools.call (tools : Tools) (name : String) (args : Value) : Value × List Query :=
  match name, tools.webSearch with
  | "web_search", some search =>
      let query := trimEnds isWhitespace (((args.index "query").asStr.getD "").toList)
      if query.isEmpty then (toolError "query is empty".toList, [])
      else
        let count := resultCount args
        let query := withYear tools.patterns query tools.year
        let result := match search query count with
          | .ok results =>
              .object [("content",
                content (formatResults tools.hostOf results count tools.today))]
          | .error err => toolError ("Search failed: ".toList ++ err.toList)
        (result, [(query, count)])
  | _, _ => (toolError ("Unknown tool ".toList ++ name.toList), [])

def initialized (params : Value) : Value :=
  let asked := (params.index "protocolVersion").asStr.getD ""
  let version := (protocolVersions.find? fun v => v = asked).getD (protocolVersions.headD "")
  .object [("capabilities", .object [("tools", .object [("listChanged", .bool false)])]),
    ("protocolVersion", .string version),
    ("serverInfo", .object [("name", .string "assistant-hub"), ("version", .string "0.1.0")])]

def success (id result : Value) : Value :=
  .object [("id", id), ("jsonrpc", .string "2.0"), ("result", result)]

def methodNotFound (id : Value) (method : String) : Value :=
  .object [("error", .object [("code", .number (.negInt (-32601))),
      ("message", .string ("Method not found: " ++ method))]),
    ("id", id), ("jsonrpc", .string "2.0")]

/-- Handles one JSON-RPC message. Nothing for notifications. -/
def Tools.handle (tools : Tools) (msg : Value) : Option Value × List Query :=
  match (msg.index "method").asStr, (msg.get "id").filter fun id => !id.isNull with
  | some method, some id =>
      let params := msg.index "params"
      match method with
      | "initialize" => (some (success id (initialized params)), [])
      | "ping" => (some (success id (.object [])), [])
      | "tools/list" => (some (success id (.object [("tools", .array tools.list)])), [])
      | "tools/call" =>
          let (result, asked) :=
            tools.call ((params.index "name").asStr.getD "") (params.index "arguments")
          (some (success id result), asked)
      | _ => (some (methodNotFound id method), [])
  | _, _ => (none, [])

structure Response where
  status : Nat
  headers : List (String × String)
  body : Option Value

/-- The messages of a body. -/
def messagesOf : Value → List Value
  | .array list => list
  | other => [other]

/-- A posted body that is JSON; `uuid` is the number of a new session. -/
def post (tools : Tools) (uuid : String) (message : Value) : Response × List Query :=
  let handled := (messagesOf message).map tools.handle
  let replies := handled.filterMap Prod.fst
  let asked := handled.flatMap Prod.snd
  let headers :=
    if !message.isArray && (message.index "method").asStr == some "initialize" then
      [("Mcp-Session-Id", uuid)]
    else []
  if replies.isEmpty then (⟨202, headers, none⟩, asked)
  else
    (⟨200, headers, some (if message.isArray then .array replies
      else replies.headD .null)⟩, asked)

/-- The endpoint `/mcp`. -/
def mcp (tools : Tools) (uuid : String) (method : String) (body : Option Value) :
    Response × List Query :=
  match method with
  | "GET" => (⟨405, [("Allow", "POST, DELETE")], none⟩, [])
  | "DELETE" => (⟨200, [], none⟩, [])
  | "POST" =>
      match body with
      | none =>
          (⟨400, [], some (.object [("error", .object [("code", .number (.negInt (-32700))),
            ("message", .string "Parse error")]), ("id", .null), ("jsonrpc", .string "2.0")])⟩,
            [])
      | some message => post tools uuid message
  | _ => (⟨405, [], none⟩, [])

/-- The method and the id of a message that wants an answer. -/
def request (msg : Value) : Option (String × Value) :=
  (msg.index "method").asStr.bind fun method =>
    ((msg.get "id").filter fun id => !id.isNull).map fun id => (method, id)

def methods : List String := ["initialize", "ping", "tools/list", "tools/call"]

/-- An answer to a request: with its id, and with a result or an error. -/
structure Answers (req : String × Value) (reply : Value) : Prop where
  id_eq : reply.get "id" = some req.2
  version : reply.get "jsonrpc" = some (.string "2.0")
  result : req.1 ∈ methods → (reply.get "result").isSome = true ∧ reply.get "error" = none
  unknown : req.1 ∉ methods →
    reply.get "result" = none ∧
      (reply.index "error").index "code" = .number (.negInt (-32601))

theorem answers_success {method : String} (h : method ∈ methods) (id result : Value) :
    Answers (method, id) (success id result) where
  id_eq := rfl
  version := rfl
  result _ := ⟨rfl, rfl⟩
  unknown hnot := absurd h hnot

theorem answers_methodNotFound {method : String} (h : method ∉ methods) (id : Value) :
    Answers (method, id) (methodNotFound id method) where
  id_eq := rfl
  version := rfl
  result hmem := absurd hmem h
  unknown _ := ⟨rfl, rfl⟩

section Handle

variable {tools : Tools} {msg : Value}

theorem handle_of_none (h : request msg = none) : tools.handle msg = (none, []) := by
  rw [request, Option.bind_eq_none_iff] at h
  rw [Tools.handle]
  split
  · rename_i method id hmethod hid
    have hnone := h method hmethod
    rw [hid] at hnone
    cases hnone
  · rfl

theorem handle_of_some (tools : Tools) {method : String} {id : Value}
    (h : request msg = some (method, id)) :
    ∃ reply, (tools.handle msg).1 = some reply ∧ Answers (method, id) reply := by
  obtain ⟨method', hmethod, h⟩ := Option.bind_eq_some_iff.mp h
  obtain ⟨id', hid, heq⟩ := Option.map_eq_some_iff.mp h
  obtain ⟨rfl, rfl⟩ := Prod.mk.inj heq
  rw [Tools.handle, hmethod, hid]
  dsimp only
  split
  · exact ⟨_, rfl, answers_success (by decide) id' _⟩
  · exact ⟨_, rfl, answers_success (by decide) id' _⟩
  · exact ⟨_, rfl, answers_success (by decide) id' _⟩
  · exact ⟨_, rfl, answers_success (by decide) id' _⟩
  · rename_i hinit hping hlist hcall
    refine ⟨_, rfl, answers_methodNotFound ?_ id'⟩
    simp only [methods, List.mem_cons, List.not_mem_nil, or_false, not_or]
    exact ⟨hinit, hping, hlist, hcall⟩

/-- Each request of a batch is answered in its place. -/
theorem answers_replies (tools : Tools) (messages : List Value) :
    List.Forall₂ Answers (messages.filterMap request)
      ((messages.map tools.handle).filterMap Prod.fst) := by
  induction messages with
  | nil => exact .nil
  | cons msg messages ih =>
      rw [List.map_cons, List.filterMap_cons, List.filterMap_cons]
      rcases hreq : request msg with _ | ⟨method, id⟩
      · rw [handle_of_none hreq]
        exact ih
      · obtain ⟨reply, hreply, hanswers⟩ := handle_of_some tools hreq
        rw [hreply]
        exact .cons hanswers ih

/-- The words of a message to search for, without blanks around them. -/
def searchText (msg : Value) : List Char :=
  trimEnds isWhitespace
    ((((msg.index "params").index "arguments").index "query").asStr.getD "").toList

/-- A request that calls the search tool with words to search for. -/
def callsSearch (msg : Value) : Bool :=
  (request msg).any (fun req => req.1 = "tools/call") &&
    ((msg.index "params").index "name").asStr = some "web_search" &&
      !(searchText msg).isEmpty

/-- What the backend is asked for a message: its words, with the year when they are
about something recent, and its number of results. -/
structure SearchOf (tools : Tools) (msg : Value) (asked : Query) : Prop where
  words : asked.1 = withYear tools.patterns (searchText msg) tools.year
  count : asked.2 =
    (((msg.index "params").index "arguments").index "max_results").asU64.elim 3 fun n =>
      max 1 (min n.toNat 5)

theorem asked_call (tools : Tools) (name : String) (args : Value) :
    (tools.call name args).2 =
      if tools.webSearch.isSome && name = "web_search" &&
          !(trimEnds isWhitespace ((args.index "query").asStr.getD "").toList).isEmpty then
        [(withYear tools.patterns
          (trimEnds isWhitespace ((args.index "query").asStr.getD "").toList) tools.year,
          resultCount args)]
      else [] := by
  unfold Tools.call
  split
  · rename_i search hsearch
    rw [hsearch]
    dsimp only
    split
    · rename_i hempty
      simp [hempty]
    · rename_i hquery
      simp [hquery]
  · rename_i name _ _ hother
    rcases hsearch : tools.webSearch with _ | search
    · simp
    · have hname : name ≠ "web_search" := fun hname => hother search hname hsearch
      simp [hname]

theorem asked_handle (tools : Tools) (msg : Value) :
    (tools.handle msg).2 =
      if tools.webSearch.isSome && callsSearch msg then
        [(withYear tools.patterns (searchText msg) tools.year,
          resultCount ((msg.index "params").index "arguments"))]
      else [] := by
  rcases hreq : request msg with _ | ⟨method, id⟩
  · rw [handle_of_none hreq, callsSearch, hreq]
    simp
  · obtain ⟨method', hmethod, h⟩ := Option.bind_eq_some_iff.mp hreq
    obtain ⟨id', hid, heq⟩ := Option.map_eq_some_iff.mp h
    obtain ⟨rfl, rfl⟩ := Prod.mk.inj heq
    rw [Tools.handle, hmethod, hid, callsSearch, hreq]
    dsimp only
    split
    · simp
    · simp
    · simp
    · rw [asked_call]
      rcases ((msg.index "params").index "name").asStr with _ | name
      · simp
      · simp [searchText, Bool.and_assoc]
    · rename_i hcall
      have hmethod' : method' ≠ "tools/call" := hcall
      simp [hmethod']

theorem searches_messages (tools : Tools) (messages : List Value) :
    List.Forall₂ (SearchOf tools)
      (messages.filter fun msg => tools.webSearch.isSome && callsSearch msg)
      ((messages.map tools.handle).flatMap Prod.snd) := by
  induction messages with
  | nil => exact .nil
  | cons msg messages ih =>
      rw [List.map_cons, List.flatMap_cons, asked_handle, List.filter_cons]
      split
      · exact .cons ⟨rfl, rfl⟩ ih
      · exact ih

theorem length_filter_callsSearch (on : Bool) (messages : List Value) :
    (messages.filter fun msg => on && callsSearch msg).length ≤
      (messages.filterMap request).length := by
  induction messages with
  | nil => exact le_rfl
  | cons msg messages ih =>
      rcases hreq : request msg with _ | req
      · have hnot : callsSearch msg = false := by
          rw [callsSearch, hreq]
          rfl
        rw [List.filterMap_cons_none hreq, List.filter_cons_of_neg (by simp [hnot])]
        exact ih
      · rw [List.filterMap_cons_some hreq, List.length_cons, List.filter_cons]
        split
        · exact Nat.succ_le_succ ih
        · exact Nat.le_succ_of_le ih

/-- A posted message or batch has one answer for each request in it, in order, and none
for its notifications; where search is on, the requests that call for a search have one
each, in order, and nothing else is searched for. -/
theorem mcp_post (tools : Tools) (uuid : String) (message : Value) :
    ∃ replies,
      List.Forall₂ Answers ((messagesOf message).filterMap request) replies ∧
        (mcp tools uuid "POST" (some message)).1.body =
            (if replies.isEmpty then none
              else some (if message.isArray then .array replies else replies.headD .null)) ∧
          (mcp tools uuid "POST" (some message)).1.status =
              (if replies.isEmpty then 202 else 200) ∧
            (mcp tools uuid "POST" (some message)).2.length ≤ replies.length ∧
              List.Forall₂ (SearchOf tools)
                ((messagesOf message).filter fun msg =>
                  tools.webSearch.isSome && callsSearch msg)
                (mcp tools uuid "POST" (some message)).2 := by
  have hanswers := answers_replies tools (messagesOf message)
  have hsearches := searches_messages tools (messagesOf message)
  have hlength := length_filter_callsSearch tools.webSearch.isSome (messagesOf message)
  rw [hsearches.length_eq, hanswers.length_eq] at hlength
  refine ⟨_, hanswers, ?_⟩
  have hpost : mcp tools uuid "POST" (some message) = post tools uuid message := rfl
  rw [hpost, post]
  split
  · exact ⟨rfl, rfl, hlength, hsearches⟩
  · exact ⟨rfl, rfl, hlength, hsearches⟩

end Handle

end AssistantHub.McpTools
