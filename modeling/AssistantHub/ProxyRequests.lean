import AssistantHub.JsonValue
import AssistantHub.RunPrefixes
import AssistantHub.RustText
import AssistantHub.TextParts
import AssistantHub.WyomingFrames
import Mathlib.Data.Set.Card

namespace AssistantHub.ProxyRequests

open AssistantHub.CrashSteps
open AssistantHub.JsonValue
open AssistantHub.RunPrefixes
open AssistantHub.RustText
open AssistantHub.TextParts
open AssistantHub.TrimmedEnds
open AssistantHub.WyomingFrames

/-- The headers in the order of the map; the names are in lower case. -/
abbrev HeaderMap := List (String × List UInt8)

def hopHeaders : List String :=
  ["connection", "keep-alive", "proxy-connection", "transfer-encoding", "te", "trailer",
    "upgrade", "host", "content-length"]

def keepHeader (name : String) : Bool := !hopHeaders.contains name

structure Request where
  method : String
  path : List Char
  query : Option (List Char)
  headers : HeaderMap
  body : List UInt8

/-- `str::strip_prefix` -/
def stripPrefix (start l : List Char) : Option (List Char) :=
  if start <+: l then some (l.drop start.length) else none

/-- The path below `/llm`. -/
def backendPath (req : Request) : List Char :=
  let path := (stripPrefix "/llm".toList req.path).getD req.path
  let path := if path.isEmpty then ['/'] else path
  match req.query with
  | some q => path ++ '?' :: q
  | none => path

/-- `config::var`: a variable of the environment, none when nothing is in it. -/
def var (raw : Option String) : Option (List Char) :=
  (raw.map fun v => trimEnds isWhitespace v.toList).filter fun v => !v.isEmpty

def visible (b : UInt8) : Bool := (32 ≤ b && b < 127) || b = 9

/-- `HeaderValue::to_str` -/
def toStr (value : List UInt8) : Option (List Char) :=
  if value.all visible then some (value.map fun b => Char.ofNat b.toNat) else none

def authorized (apiKey : Option (List Char)) (headers : HeaderMap) : Bool :=
  match apiKey with
  | none => true
  | some key =>
      (((headers.lookup "authorization").bind toStr).bind
        (stripPrefix "Bearer ".toList)).any fun given =>
          trimEnds isWhitespace given = key

/-- A request to llama-server. Its body is passed on as it comes. -/
structure Forwarded where
  method : String
  target : List Char
  headers : HeaderMap
  body : Option (List UInt8)

def forwarded (req : Request) : Forwarded :=
  { method := req.method
    target := backendPath req
    headers := req.headers.filter fun h => keepHeader h.1 && h.1 != "authorization"
    body := if req.method ≠ "GET" ∧ req.method ≠ "HEAD" then some req.body else none }

def error (message kind : String) : Value :=
  .object [("error", .object [("message", .string message), ("type", .string kind)])]

/-- What has become of a request, as its client sees it. -/
inductive Exchange where
  | absent
  | answered (status : Nat) (body : Value)
  /-- There is no connection to llama-server yet. -/
  | sending (m : Forwarded)
  | waiting
  | streaming (status : Nat) (headers : HeaderMap) (body : List UInt8)
  | ended (status : Nat) (headers : HeaderMap) (body : List UInt8) (complete : Bool)
  | left

/-- The request is forwarded and not yet answered to the end. -/
def Exchange.isOpen : Exchange → Bool
  | .sending _ => true
  | .waiting => true
  | .streaming _ _ _ => true
  | _ => false

structure LlmProxy where
  inFlight : Int
  exchanges : Nat → Exchange
  /-- What went to llama-server over a connection. -/
  seen : List Forwarded

def LlmProxy.new : LlmProxy :=
  { inFlight := 0, exchanges := fun _ => .absent, seen := [] }

def LlmProxy.set (r : Nat) (e : Exchange) (p : LlmProxy) : LlmProxy :=
  { p with exchanges := Function.update p.exchanges r e }

/-- `Drop` of the guard that counts a request. -/
def LlmProxy.uncounted (p : LlmProxy) : LlmProxy := { p with inFlight := p.inFlight - 1 }

inductive Act where
  | arrive (r : Nat) (req : Request)
  | connect (r : Nat)
  | respond (r : Nat) (status : Nat) (headers : HeaderMap)
  /-- llama-server does not listen. -/
  | refuse (r : Nat)
  | fail (r : Nat) (message : String)
  | chunk (r : Nat) (bytes : List UInt8)
  | finish (r : Nat)
  /-- The body of llama-server ends with an error. -/
  | cut (r : Nat)
  /-- The client goes away. -/
  | leave (r : Nat)

def Act.request : Act → Nat
  | .arrive r _ => r
  | .connect r => r
  | .respond r _ _ => r
  | .refuse r => r
  | .fail r _ => r
  | .chunk r _ => r
  | .finish r => r
  | .cut r => r
  | .leave r => r

/-- The request does not wait for a connection after this. -/
def Act.settles : Act → Bool
  | .connect _ => true
  | .refuse _ => true
  | .fail _ _ => true
  | .leave _ => true
  | _ => false

/-- The effect of an action on `forward`; none, where the request is not at it. -/
def act (apiKey : Option (List Char)) (a : Act) (p : LlmProxy) : LlmProxy :=
  match a with
  | .arrive r req =>
      match p.exchanges r with
      | .absent =>
          if authorized apiKey req.headers then
            { p.set r (.sending (forwarded req)) with inFlight := p.inFlight + 1 }
          else p.set r (.answered 401 (error "Invalid API Key" "authentication_error"))
      | _ => p
  | .connect r =>
      match p.exchanges r with
      | .sending m => { p.set r .waiting with seen := p.seen ++ [m] }
      | _ => p
  | .respond r status headers =>
      match p.exchanges r with
      | .waiting =>
          p.set r (.streaming status (headers.filter fun h => keepHeader h.1) [])
      | _ => p
  | .refuse r =>
      match p.exchanges r with
      | .sending _ =>
          (p.set r (.answered 503
            (error "llama-server is not ready yet" "unavailable"))).uncounted
      | _ => p
  | .fail r message =>
      match p.exchanges r with
      | .sending _ =>
          (p.set r (.answered 502 (error message "upstream_error"))).uncounted
      | .waiting =>
          (p.set r (.answered 502 (error message "upstream_error"))).uncounted
      | _ => p
  | .chunk r bytes =>
      match p.exchanges r with
      | .streaming status headers body =>
          p.set r (.streaming status headers (body ++ bytes))
      | _ => p
  | .finish r =>
      match p.exchanges r with
      | .streaming status headers body =>
          (p.set r (.ended status headers body true)).uncounted
      | _ => p
  | .cut r =>
      match p.exchanges r with
      | .streaming status headers body =>
          (p.set r (.ended status headers body false)).uncounted
      | _ => p
  | .leave r =>
      match p.exchanges r with
      | .sending _ => (p.set r .left).uncounted
      | .waiting => (p.set r .left).uncounted
      | .streaming _ _ _ => (p.set r .left).uncounted
      | _ => p

inductive LlmHealth where
  | ok
  | busy
  | unavailable
  deriving DecidableEq, Repr

def LlmHealth.name : LlmHealth → String
  | .ok => "ok"
  | .busy => "busy"
  | .unavailable => "unavailable"

/-- What the own probe of llama-server's `/health` gives. -/
inductive Probe where
  | answer (status : Nat)
  | timedOut
  | failed
  deriving DecidableEq

def LlmProxy.health (p : LlmProxy) : Probe → LlmHealth
  | .answer status => if 200 ≤ status ∧ status < 300 then .ok else .unavailable
  | .timedOut => if p.inFlight > 0 then .busy else .unavailable
  | .failed => .unavailable

/-- The parts of the hub that `/health` tells about. -/
structure AppState where
  stt : Bool
  ttsHealthy : Bool
  llm : Option LlmProxy
  webSearch : Bool
  youtube : Bool
  jellyfin : Bool
  mediaIndex : Option Value

/-- The status and the body of `/health`. -/
def AppState.health (app : AppState) (probe : Probe) : Nat × Value :=
  let llm := match app.llm with
    | none => "off"
    | some proxy => (proxy.health probe).name
  let ok := app.stt && app.ttsHealthy && llm != "unavailable"
  (if ok then 200 else 503,
    .object [("jellyfin", .bool app.jellyfin), ("llm", .string llm),
      ("media_index", app.mediaIndex.getD (.string "off")),
      ("status", .string (if ok then "ok" else "degraded")), ("stt", .bool app.stt),
      ("tts", .bool app.ttsHealthy), ("web_search", .bool app.webSearch),
      ("youtube", .bool app.youtube)])

section Credentials

theorem stripPrefix_eq_some_iff {start l rest : List Char} :
    stripPrefix start l = some rest ↔ l = start ++ rest := by
  rw [stripPrefix]
  constructor
  · intro h
    split at h
    · rename_i hpre
      obtain ⟨rest', rfl⟩ := hpre
      rw [List.drop_left] at h
      rw [Option.some.inj h]
    · cases h
  · rintro rfl
    rw [if_pos (List.prefix_append start rest), List.drop_left]

/-- The letters that `to_str` accepts. -/
def Visible (c : Char) : Prop := c = '\t' ∨ (32 ≤ c.toNat ∧ c.toNat < 127)

instance : DecidablePred Visible := fun c =>
  inferInstanceAs (Decidable (c = '\t' ∨ (32 ≤ c.toNat ∧ c.toNat < 127)))

def asciiBytes (l : List Char) : List UInt8 := l.map fun c => UInt8.ofNat c.toNat

theorem Visible.toNat_lt {c : Char} (h : Visible c) : c.toNat < 127 := by
  rcases h with rfl | h
  · decide
  · exact h.2

theorem visible_iff {b : UInt8} :
    visible b = true ↔ (32 ≤ b.toNat ∧ b.toNat < 127) ∨ b.toNat = 9 := by
  rw [visible, Bool.or_eq_true, Bool.and_eq_true, decide_eq_true_eq, decide_eq_true_eq,
    decide_eq_true_eq, UInt8.le_iff_toNat_le, UInt8.lt_iff_toNat_lt, UInt8.toNat_inj.symm]
  rfl

theorem toNat_ofNat_of_lt {n : Nat} (h : n < 127) : (Char.ofNat n).toNat = n := by
  have hvalid : n.isValidChar := Or.inl (by omega)
  rw [Char.ofNat, dif_pos hvalid]
  rfl

theorem ofNat_visible {c : Char} (h : Visible c) :
    Char.ofNat (UInt8.ofNat c.toNat).toNat = c := by
  have hlt := h.toNat_lt
  rw [UInt8.toNat_ofNat_of_lt' (show c.toNat < 256 by omega), Char.ofNat_toNat]

theorem visible_ofNat {c : Char} (h : Visible c) : visible (UInt8.ofNat c.toNat) = true := by
  have hlt := h.toNat_lt
  rw [visible_iff, UInt8.toNat_ofNat_of_lt' (show c.toNat < 256 by omega)]
  rcases h with rfl | h
  · exact Or.inr rfl
  · exact Or.inl h

theorem visible_char {b : UInt8} (h : visible b = true) :
    Visible (Char.ofNat b.toNat) ∧ UInt8.ofNat (Char.ofNat b.toNat).toNat = b := by
  rw [visible_iff] at h
  have hlt : b.toNat < 127 := by omega
  rw [toNat_ofNat_of_lt hlt, UInt8.ofNat_toNat]
  refine ⟨?_, rfl⟩
  rcases h with h | h
  · refine Or.inr ?_
    rw [toNat_ofNat_of_lt hlt]
    exact h
  · exact Or.inl (by rw [h])

theorem toStr_eq_some_iff {value : List UInt8} {l : List Char} :
    toStr value = some l ↔ value = asciiBytes l ∧ ∀ c ∈ l, Visible c := by
  rw [toStr]
  constructor
  · intro h
    split at h
    · rename_i hall
      rw [List.all_eq_true] at hall
      obtain rfl := Option.some.inj h
      constructor
      · rw [asciiBytes, List.map_map]
        refine (List.map_id'' (f := fun b : UInt8 => b) (fun b => rfl) value).symm.trans ?_
        exact List.map_congr_left fun b hb => (visible_char (hall b hb)).2.symm
      · intro c hc
        obtain ⟨b, hb, rfl⟩ := List.mem_map.mp hc
        exact (visible_char (hall b hb)).1
    · cases h
  · rintro ⟨rfl, hvisible⟩
    have hall : (asciiBytes l).all visible = true := by
      rw [asciiBytes, List.all_map, List.all_eq_true]
      intro c hc
      exact visible_ofNat (hvisible c hc)
    rw [if_pos hall, asciiBytes, List.map_map]
    have hmap : l.map ((fun b : UInt8 => Char.ofNat b.toNat) ∘ fun c => UInt8.ofNat c.toNat) =
        l.map id := List.map_congr_left fun c hc => ofNat_visible (hvisible c hc)
    rw [hmap, List.map_id]

/-- A letter of a header's text that is trimmed. -/
def Blank (c : Char) : Prop := c = ' ' ∨ c = '\t'

theorem visible_of_blank {c : Char} (h : Blank c) : Visible c := by
  rcases h with rfl | rfl
  · exact Or.inr (by decide)
  · exact Or.inl rfl

theorem isWhitespace_of_blank {c : Char} (h : Blank c) : isWhitespace c = true := by
  rcases h with rfl | rfl
  · decide
  · decide

theorem blank_of_isWhitespace {c : Char} (h : isWhitespace c = true) (hc : Visible c) :
    Blank c := by
  rcases hc with rfl | ⟨hlow, hhigh⟩
  · exact Or.inr rfl
  · have hnat : c.toNat = 32 := by
      simp only [isWhitespace, Bool.or_eq_true, Bool.and_eq_true, decide_eq_true_eq,
        beq_iff_eq] at h
      omega
    exact Or.inl (by rw [← Char.ofNat_toNat c, hnat])

/-- What the header must say for a key: the key behind `Bearer`, with blanks around it. -/
structure Credential (key : List Char) (value : List UInt8) : Prop where
  visible : ∀ c ∈ key, Visible c
  spelled : ∃ front back : List Char, (∀ c ∈ front, Blank c) ∧ (∀ c ∈ back, Blank c) ∧
    value = asciiBytes ("Bearer ".toList ++ (front ++ (key ++ back)))

theorem given_iff {key : List Char} {value : List UInt8}
    (hhead : ∀ c ∈ key.head?, isWhitespace c = false)
    (hlast : ∀ c ∈ key.getLast?, isWhitespace c = false) :
    ((toStr value).bind (stripPrefix "Bearer ".toList)).any
      (fun given => trimEnds isWhitespace given = key) = true ↔ Credential key value := by
  rw [Option.any_eq_true]
  constructor
  · rintro ⟨given, hgiven, htrim⟩
    obtain ⟨l, hl, hstrip⟩ := Option.bind_eq_some_iff.mp hgiven
    rw [stripPrefix_eq_some_iff] at hstrip
    subst hstrip
    rw [toStr_eq_some_iff] at hl
    obtain ⟨rfl, hvisible⟩ := hl
    rw [decide_eq_true_eq, trimEnds_eq_iff hhead hlast] at htrim
    obtain ⟨front, back, rfl, hfront, hback⟩ := htrim
    simp only [List.forall_mem_append] at hvisible
    obtain ⟨-, hvfront, hvkey, hvback⟩ := hvisible
    refine ⟨hvkey, front, back, ?_, ?_, rfl⟩
    · intro c hc
      exact blank_of_isWhitespace (hfront c hc) (hvfront c hc)
    · intro c hc
      exact blank_of_isWhitespace (hback c hc) (hvback c hc)
  · rintro ⟨hvisible, front, back, hfront, hback, rfl⟩
    refine ⟨front ++ (key ++ back), ?_, ?_⟩
    · refine Option.bind_eq_some_iff.mpr ⟨_, toStr_eq_some_iff.mpr ⟨rfl, ?_⟩,
        stripPrefix_eq_some_iff.mpr rfl⟩
      simp only [List.forall_mem_append]
      exact ⟨by decide, fun c hc => visible_of_blank (hfront c hc), hvisible,
        fun c hc => visible_of_blank (hback c hc)⟩
    · rw [decide_eq_true_eq, trimEnds_eq_iff hhead hlast]
      exact ⟨front, back, rfl, fun c hc => isWhitespace_of_blank (hfront c hc),
        fun c hc => isWhitespace_of_blank (hback c hc)⟩

/-- The headers with which a request passes. -/
def Permitted (raw : Option String) (headers : HeaderMap) : Prop :=
  ∀ key, var raw = some key →
    ∃ value, headers.lookup "authorization" = some value ∧ Credential key value

theorem ends_of_var {raw : Option String} {key : List Char} (h : var raw = some key) :
    (∀ c ∈ key.head?, isWhitespace c = false) ∧
      ∀ c ∈ key.getLast?, isWhitespace c = false := by
  obtain ⟨hmap, -⟩ := Option.filter_eq_some_iff.mp h
  obtain ⟨v, -, rfl⟩ := Option.map_eq_some_iff.mp hmap
  exact ⟨head?_trimEnds, getLast?_trimEnds⟩

theorem permitted_iff {raw : Option String} {key : List Char} {headers : HeaderMap}
    (hkey : var raw = some key) :
    Permitted raw headers ↔
      ∃ value, headers.lookup "authorization" = some value ∧ Credential key value := by
  constructor
  · intro h
    exact h key hkey
  · intro h key' hkey'
    obtain rfl := Option.some.inj (hkey.symm.trans hkey')
    exact h

theorem authorized_iff {raw : Option String} {headers : HeaderMap} :
    authorized (var raw) headers = true ↔ Permitted raw headers := by
  rcases hkey : var raw with _ | key
  · refine iff_of_true rfl ?_
    intro key hkey'
    rw [hkey] at hkey'
    cases hkey'
  · obtain ⟨hhead, hlast⟩ := ends_of_var hkey
    rw [permitted_iff hkey, authorized]
    rcases hvalue : headers.lookup "authorization" with _ | value
    · refine iff_of_false Bool.false_ne_true ?_
      rintro ⟨value, hsome, -⟩
      cases hsome
    · rw [Option.bind_some, given_iff hhead hlast]
      constructor
      · exact fun h => ⟨value, rfl, h⟩
      · rintro ⟨value', hsome, h⟩
        obtain rfl := Option.some.inj hsome
        exact h

end Credentials

section Runs

variable {apiKey : Option (List Char)} {p : LlmProxy} {r : Nat} {e : Exchange}

/-- What an action does to the request that it is for. -/
inductive Moves (apiKey : Option (List Char)) (r : Nat) (p : LlmProxy) : LlmProxy → Prop where
  | none : Moves apiKey r p p
  | opens {req : Request} : p.exchanges r = .absent →
      authorized apiKey req.headers = true →
      Moves apiKey r p
        { p.set r (.sending (forwarded req)) with inFlight := p.inFlight + 1 }
  | denies {e : Exchange} : p.exchanges r = .absent → e.isOpen = false →
      Moves apiKey r p (p.set r e)
  | keeps {e : Exchange} (seen : List Forwarded) : (p.exchanges r).isOpen = true →
      e.isOpen = true → Moves apiKey r p { p.set r e with seen := seen }
  | closes {e : Exchange} : (p.exchanges r).isOpen = true → e.isOpen = false →
      Moves apiKey r p (p.set r e).uncounted

theorem isOpen_of_eq (h : p.exchanges r = e) (he : e.isOpen = true) :
    (p.exchanges r).isOpen = true := h.symm ▸ he

theorem moves_act (a : Act) (p : LlmProxy) :
    Moves apiKey a.request p (act apiKey a p) := by
  rcases a with ⟨r, req⟩ | r | ⟨r, status, headers⟩ | r | ⟨r, message⟩ | ⟨r, bytes⟩ | r | r | r
  · rw [act]
    split
    · rename_i h
      split
      · rename_i hkey
        exact .opens h hkey
      · exact .denies h rfl
    · exact .none
  · rw [act]
    split
    · rename_i h
      exact .keeps _ (isOpen_of_eq h rfl) rfl
    · exact .none
  · rw [act]
    split
    · rename_i h
      exact .keeps p.seen (isOpen_of_eq h rfl) rfl
    · exact .none
  · rw [act]
    split
    · rename_i h
      exact .closes (isOpen_of_eq h rfl) rfl
    · exact .none
  · rw [act]
    split
    · rename_i h
      exact .closes (isOpen_of_eq h rfl) rfl
    · rename_i h
      exact .closes (isOpen_of_eq h rfl) rfl
    · exact .none
  · rw [act]
    split
    · rename_i h
      exact .keeps p.seen (isOpen_of_eq h rfl) rfl
    · exact .none
  · rw [act]
    split
    · rename_i h
      exact .closes (isOpen_of_eq h rfl) rfl
    · exact .none
  · rw [act]
    split
    · rename_i h
      exact .closes (isOpen_of_eq h rfl) rfl
    · exact .none
  · rw [act]
    split
    · rename_i h
      exact .closes (isOpen_of_eq h rfl) rfl
    · rename_i h
      exact .closes (isOpen_of_eq h rfl) rfl
    · rename_i h
      exact .closes (isOpen_of_eq h rfl) rfl
    · exact .none

/-- The requests that are forwarded and not yet answered to the end. -/
def opened (p : LlmProxy) : Set Nat := {r | (p.exchanges r).isOpen = true}

theorem opened_set_of_open (h : e.isOpen = true) :
    opened (p.set r e) = insert r (opened p) := by
  ext r'
  show (Function.update p.exchanges r e r').isOpen = true ↔ r' = r ∨ _
  by_cases hr : r' = r
  · subst hr
    simp [h]
  · simp [hr, opened]

theorem opened_set_of_not_open (h : e.isOpen = false) :
    opened (p.set r e) = opened p \ {r} := by
  ext r'
  show (Function.update p.exchanges r e r').isOpen = true ↔ _ ∧ ¬r' = r
  by_cases hr : r' = r
  · subst hr
    simp [h]
  · simp [hr, opened]

theorem not_mem_opened (h : p.exchanges r = .absent) : r ∉ opened p := by
  intro hr
  have hopen : (p.exchanges r).isOpen = true := hr
  rw [h] at hopen
  cases hopen

/-- The counter is the number of open requests. -/
structure Counted (p : LlmProxy) : Prop where
  finite : (opened p).Finite
  inFlight_eq : p.inFlight = (opened p).ncard

theorem counted_of_moves {p' : LlmProxy} (hmoves : Moves apiKey r p p') (hp : Counted p) :
    Counted p' := by
  obtain ⟨hfinite, hcount⟩ := hp
  rcases hmoves with _ | ⟨habsent, -⟩ | ⟨habsent, he⟩ | ⟨seen, hopen, he⟩ | ⟨hopen, he⟩
  · exact ⟨hfinite, hcount⟩
  · rename_i req
    have hset : opened (p.set r (.sending (forwarded req))) = insert r (opened p) :=
      opened_set_of_open rfl
    refine ⟨?_, ?_⟩
    · exact hset ▸ hfinite.insert r
    · show p.inFlight + 1 = ((opened (p.set r (.sending (forwarded req)))).ncard : Int)
      rw [hset, Set.ncard_insert_of_notMem (not_mem_opened habsent) hfinite, hcount]
      rfl
  · rename_i e
    have hset : opened (p.set r e) = opened p := by
      rw [opened_set_of_not_open he, Set.sdiff_singleton_eq_self (not_mem_opened habsent)]
    exact ⟨hset ▸ hfinite, by rw [hset, ← hcount]; rfl⟩
  · rename_i e
    have hset : opened (p.set r e) = opened p := by
      rw [opened_set_of_open he, Set.insert_eq_of_mem (show r ∈ opened p from hopen)]
    refine ⟨hset ▸ hfinite, ?_⟩
    show p.inFlight = ((opened (p.set r e)).ncard : Int)
    rw [hset, hcount]
  · rename_i e
    have hset : opened (p.set r e) = opened p \ {r} := opened_set_of_not_open he
    have hone := Set.ncard_sdiff_singleton_add_one (s := opened p) hopen hfinite
    refine ⟨hset ▸ hfinite.sdiff, ?_⟩
    show p.inFlight - 1 = ((opened (p.set r e)).ncard : Int)
    rw [hset, hcount, ← hone]
    omega

theorem counted_run (acts : List Act) : Counted (run (act apiKey) acts .new) := by
  apply run_invariant (p := Counted)
  · intro a p hp
    exact counted_of_moves (moves_act a p) hp
  · have hnone : opened .new = ∅ := by
      ext r
      exact iff_of_false (fun h => Bool.false_ne_true h) (fun h => h)
    exact ⟨hnone ▸ Set.finite_empty, by rw [hnone, Set.ncard_empty]; rfl⟩

/-- The proxy counts a request exactly as long as one is open. -/
theorem inFlight_pos_iff (acts : List Act) :
    (run (act apiKey) acts .new).inFlight > 0 ↔
      ∃ r, ((run (act apiKey) acts .new).exchanges r).isOpen = true := by
  obtain ⟨hfinite, hcount⟩ := @counted_run apiKey acts
  rw [hcount, gt_iff_lt, Int.natCast_pos, Set.ncard_pos hfinite]
  rfl

section Isolation

variable {a : Act}

theorem exchanges_set_self : (p.set r e).exchanges r = e := Function.update_self ..

theorem exchanges_set_of_ne {r' : Nat} (h : r' ≠ r) :
    (p.set r e).exchanges r' = p.exchanges r' := Function.update_of_ne h _ _

theorem exchanges_of_moves {p' : LlmProxy} {r' : Nat} (hmoves : Moves apiKey r p p')
    (h : r' ≠ r) : p'.exchanges r' = p.exchanges r' := by
  rcases hmoves with _ | _ | _ | _ | _
  · rfl
  all_goals exact exchanges_set_of_ne h

/-- What an action makes of the request that it is for. -/
def Exchange.after (apiKey : Option (List Char)) (a : Act) (e : Exchange) : Exchange :=
  match a, e with
  | .arrive _ req, .absent =>
      if authorized apiKey req.headers then .sending (forwarded req)
      else .answered 401 (error "Invalid API Key" "authentication_error")
  | .connect _, .sending _ => .waiting
  | .respond _ status headers, .waiting =>
      .streaming status (headers.filter fun h => keepHeader h.1) []
  | .refuse _, .sending _ =>
      .answered 503 (error "llama-server is not ready yet" "unavailable")
  | .fail _ message, .sending _ => .answered 502 (error message "upstream_error")
  | .fail _ message, .waiting => .answered 502 (error message "upstream_error")
  | .chunk _ bytes, .streaming status headers body => .streaming status headers (body ++ bytes)
  | .finish _, .streaming status headers body => .ended status headers body true
  | .cut _, .streaming status headers body => .ended status headers body false
  | .leave _, .sending _ => .left
  | .leave _, .waiting => .left
  | .leave _, .streaming _ _ _ => .left
  | _, e => e

/-- An action looks at no other request than its own. -/
theorem exchanges_act (a : Act) (p : LlmProxy) :
    (act apiKey a p).exchanges a.request = (p.exchanges a.request).after apiKey a := by
  rcases a with ⟨r, req⟩ | r | ⟨r, status, headers⟩ | r | ⟨r, message⟩ | ⟨r, bytes⟩ | r | r | r
  all_goals
    rw [Act.request]
    rcases he : p.exchanges r with _ | _ | _ | _ | _ | _ | _
    all_goals
      simp only [act, he, Exchange.after, LlmProxy.uncounted, exchanges_set_self]
  · split
    all_goals exact exchanges_set_self

/-- Requests at the same time do not disturb each other: each ends as it would
have alone. -/
theorem exchanges_run (acts : List Act) (r : Nat) :
    (run (act apiKey) acts p).exchanges r =
      (run (act apiKey) (acts.filter fun a => a.request = r) p).exchanges r := by
  apply run_filter (fun p : LlmProxy => p.exchanges r) fun a : Act => decide (a.request = r)
  · intro a p q ha h
    obtain rfl := of_decide_eq_true ha
    show (act apiKey a p).exchanges a.request = (act apiKey a q).exchanges a.request
    rw [exchanges_act, exchanges_act]
    exact congrArg (Exchange.after apiKey a) h
  · intro a p ha
    exact exchanges_of_moves (moves_act a p) (Ne.symm (of_decide_eq_false ha))

theorem after_eq_absent_iff :
    e.after apiKey a = .absent ↔ e = .absent ∧ ∀ r req, a ≠ .arrive r req := by
  fun_cases Exchange.after apiKey a e with
  | case14 _ _ harrive =>
      rw [iff_self_and]
      exact fun he r req ha => harrive r req ha he
  | _ => simp

theorem absent_act_iff :
    (act apiKey a p).exchanges r = .absent ↔
      p.exchanges r = .absent ∧ ∀ req, a ≠ .arrive r req := by
  by_cases hr : a.request = r
  · subst hr
    rw [exchanges_act, after_eq_absent_iff]
    refine and_congr_right fun _ => ⟨fun h req => h _ req, ?_⟩
    rintro h r req rfl
    exact h req rfl
  · rw [exchanges_of_moves (moves_act a p) (Ne.symm hr)]
    refine (and_iff_left ?_).symm
    rintro req rfl
    exact hr rfl

theorem absent_run_iff (acts : List Act) :
    (run (act apiKey) acts .new).exchanges r = .absent ↔ ∀ req, .arrive r req ∉ acts := by
  induction acts using List.reverseRecOn with
  | nil => exact iff_of_true rfl fun req => List.not_mem_nil
  | append_singleton acts a ih =>
      rw [run_concat, absent_act_iff, ih]
      simp only [List.mem_append, List.mem_singleton, not_or, forall_and, eq_comm (b := a)]

theorem mem_seen_act_iff {m : Forwarded} :
    m ∈ (act apiKey a p).seen ↔
      m ∈ p.seen ∨ ∃ r, a = .connect r ∧ p.exchanges r = .sending m := by
  rcases a with ⟨r, req⟩ | r | ⟨r, status, headers⟩ | r | ⟨r, message⟩ | ⟨r, bytes⟩ | r | r | r
  · rw [act]
    split
    · split
      all_goals simp [LlmProxy.set]
    · simp
  · rw [act]
    split
    · rename_i m' hsending
      simp [hsending, eq_comm]
    · rename_i hother
      refine (or_iff_left ?_).symm
      rintro ⟨r', heq, hsending⟩
      obtain rfl := Act.connect.inj heq
      exact hother m hsending
  all_goals
    rw [act]
    split
    all_goals simp [LlmProxy.set, LlmProxy.uncounted]

theorem after_eq_sending_iff {m : Forwarded} :
    e.after apiKey a = .sending m ↔
      (∃ r req, a = .arrive r req ∧ e = .absent ∧
        authorized apiKey req.headers = true ∧ m = forwarded req) ∨
      e = .sending m ∧ a.settles = false := by
  fun_cases Exchange.after apiKey a e with
  | case1 _ req hkey =>
      simp only [Exchange.sending.injEq, reduceCtorEq, false_and, or_false]
      constructor
      · rintro rfl
        exact ⟨_, req, rfl, trivial, hkey, rfl⟩
      · rintro ⟨r, req, ha, -, -, rfl⟩
        rw [(Act.arrive.inj ha).2]
  | case2 _ req hkey => simp [hkey]
  | case14 _ _ harrive hconnect _ hrefuse hfail _ _ _ _ hleave =>
      -- The request is not where the action takes it up.
      constructor
      · rintro rfl
        refine Or.inr ⟨rfl, ?_⟩
        rcases a with _ | r | _ | r | ⟨r, message⟩ | _ | _ | _ | r
        · rfl
        · exact (hconnect r m rfl rfl).elim
        · rfl
        · exact (hrefuse r m rfl rfl).elim
        · exact (hfail r message m rfl rfl).elim
        · rfl
        · rfl
        · rfl
        · exact (hleave r m rfl rfl).elim
      · rintro (⟨r, req, ha, he, -⟩ | ⟨he, -⟩)
        · exact (harrive r req ha he).elim
        · exact he
  | _ => simp [Act.settles]

theorem sending_act_iff {m : Forwarded} :
    (act apiKey a p).exchanges r = .sending m ↔
      (∃ req, a = .arrive r req ∧ p.exchanges r = .absent ∧
        authorized apiKey req.headers = true ∧ m = forwarded req) ∨
      p.exchanges r = .sending m ∧ (a.request = r → a.settles = false) := by
  by_cases hr : a.request = r
  · subst hr
    rw [exchanges_act, after_eq_sending_iff]
    simp only [true_imp_iff]
    refine or_congr_left ⟨?_, fun ⟨req, h⟩ => ⟨_, req, h⟩⟩
    rintro ⟨r, req, rfl, h⟩
    exact ⟨req, rfl, h⟩
  · rw [exchanges_of_moves (moves_act a p) (Ne.symm hr)]
    simp only [hr, false_implies, and_true]
    refine (or_iff_right ?_).symm
    rintro ⟨req, rfl, -⟩
    exact hr rfl

/-- A request waits for its connection from its first arrival, if that has the
key, until something settles it. -/
theorem sending_run_iff {acts : List Act} {m : Forwarded} :
    (run (act apiKey) acts .new).exchanges r = .sending m ↔
      ∃ before req between, acts = before ++ .arrive r req :: between ∧
        (∀ req', .arrive r req' ∉ before) ∧
        (∀ a ∈ between, a.request = r → a.settles = false) ∧
        authorized apiKey req.headers = true ∧ m = forwarded req := by
  induction acts using List.reverseRecOn with
  | nil =>
      refine iff_of_false (show Exchange.absent ≠ .sending m by simp) ?_
      rintro ⟨before, req, between, hacts, -⟩
      simp at hacts
  | append_singleton acts a ih =>
      rw [run_concat, sending_act_iff, ih]
      constructor
      · rintro (⟨req, rfl, habsent, hkey, rfl⟩ |
          ⟨⟨before, req, between, rfl, hfirst, hbetween, hrest⟩, ha⟩)
        · exact ⟨acts, req, [], rfl, (absent_run_iff acts).mp habsent, by simp, hkey, rfl⟩
        · refine ⟨before, req, between ++ [a], by simp, hfirst, ?_, hrest⟩
          simp only [List.mem_append, List.mem_singleton]
          rintro a' (hold | rfl)
          · exact hbetween a' hold
          · exact ha
      · rintro ⟨before, req, between, hacts, hfirst, hbetween, hkey, rfl⟩
        rcases List.eq_nil_or_concat between with rfl | ⟨between, a', rfl⟩
        · obtain ⟨rfl, hlast⟩ := List.append_inj' hacts rfl
          obtain rfl := List.singleton_inj.mp hlast
          exact Or.inl ⟨req, rfl, (absent_run_iff acts).mpr hfirst, hkey, rfl⟩
        · rw [List.concat_eq_append, ← List.cons_append, ← List.append_assoc] at hacts
          obtain ⟨rfl, hlast⟩ := List.append_inj' hacts rfl
          obtain rfl := List.singleton_inj.mp hlast
          refine Or.inr ⟨⟨before, req, between, rfl, hfirst, ?_, hkey, rfl⟩, ?_⟩
          · exact fun a' ha' => hbetween a' (by simp [ha'])
          · exact hbetween a (by simp)

end Isolation

/-- None of the headers that stay with the proxy. -/
def Stripped (m : Forwarded) : Prop :=
  ∀ h ∈ m.headers, h.1 ∉ hopHeaders ∧ h.1 ≠ "authorization"

theorem stripped_forwarded (req : Request) : Stripped (forwarded req) := by
  intro h hh
  obtain ⟨-, hkeep⟩ := List.mem_filter.mp hh
  rw [Bool.and_eq_true, bne_iff_ne, keepHeader, Bool.not_eq_true', ← Bool.not_eq_true,
    List.contains_iff_mem] at hkeep
  exact hkeep

theorem health_ne_unavailable_iff (probe : Probe) :
    (p.health probe).name ≠ "unavailable" ↔
      (∃ status, probe = .answer status ∧ 200 ≤ status ∧ status < 300) ∨
        probe = .timedOut ∧ p.inFlight > 0 := by
  rcases probe with status | _ | _
  · by_cases hstatus : 200 ≤ status ∧ status < 300
    · simp [LlmProxy.health, hstatus, LlmHealth.name]
    · simp [LlmProxy.health, hstatus, LlmHealth.name]
  · by_cases hcount : p.inFlight > 0
    · simp [LlmProxy.health, hcount, LlmHealth.name]
    · simp [LlmProxy.health, hcount, LlmHealth.name]
  · simp [LlmProxy.health, LlmHealth.name]

/-- Without a language model `/health` is about the voice alone. With one it takes a
llama-server that does not answer in time for a busy one just while a request is open,
whatever the other requests have done; the proxy counts the open ones. -/
theorem health_ok_iff (raw : Option String) (acts : List Act) (app : AppState)
    (probe : Probe) :
    (({ app with llm := none }.health probe).1 = 200 ↔
      app.stt = true ∧ app.ttsHealthy = true) ∧
    (({ app with llm := some (run (act (var raw)) acts .new) }.health probe).1 = 200 ↔
      app.stt = true ∧ app.ttsHealthy = true ∧
        ((∃ status, probe = .answer status ∧ 200 ≤ status ∧ status < 300) ∨
          probe = .timedOut ∧
            ∃ r, ((run (act (var raw)) (acts.filter fun a => a.request = r)
              .new).exchanges r).isOpen = true)) ∧
    (opened (run (act (var raw)) acts .new)).Finite ∧
    (run (act (var raw)) acts .new).inFlight =
      (opened (run (act (var raw)) acts .new)).ncard := by
  refine ⟨?_, ?_, (counted_run acts).finite, (counted_run acts).inFlight_eq⟩
  · simp [AppState.health]
  · have hopen := @inFlight_pos_iff (var raw) acts
    simp only [exchanges_run acts] at hopen
    rw [← hopen, ← health_ne_unavailable_iff]
    simp [AppState.health, and_assoc]

end Runs

end AssistantHub.ProxyRequests
