import AssistantHub.InodeFiles

namespace AssistantHub.SlotFiles

open AssistantHub.InodeFiles

abbrev SlotDisk := Disk String UInt8

inductive Client where
  | run
  | saveNow
  deriving DecidableEq

/-- A save request at the engine, with what the engine writes for it, in the
pieces in which it does. -/
structure Request where
  id : Nat
  client : Client
  output : List (List UInt8)

/-- An engine without a save in progress knows whether the last save that it
began was answered with success. -/
inductive Engine where
  | idle (complete : Bool)
  | writing (request : Request) (inode : Nat) (rest : List (List UInt8))

inductive Phase where
  | idle
  /-- The save request is sent. -/
  | waiting (id : Nat)
  /-- The engine has answered; `move_with_sidecars` begins. -/
  | answered
  /-- The files of an earlier save are removed, then the new one is renamed. -/
  | clearing (old : List String)
  | renamed
  /-- The files next to the new one are renamed. -/
  | moving (names : List String)
  /-- The file could not be restored; `remove_with_sidecars` begins. -/
  | discarding
  | discarded
  | sweeping (names : List String)
  | returned
  deriving DecidableEq

/-- `finished` lists the complete outputs of the saves that the engine has
answered with success, in this life of the process or an earlier one. -/
structure System where
  file : String
  disk : SlotDisk
  engine : Engine
  queue : List Request
  nextId : Nat
  phase : Client → Phase
  finished : List (List UInt8)
  cancelled : Bool
  killed : Bool

def tmp (file : String) : String := file ++ ".tmp"

def startsWith (name start : String) : Bool := start.toList.isPrefixOf name.toList

def sidecars (disk : SlotDisk) (file : String) : List String :=
  disk.names.filter fun name => startsWith name (file ++ ".")

def System.setPhase (s : System) (c : Client) (phase : Phase) : System :=
  { s with phase := Function.update s.phase c phase }

/-- Where a client goes after a save, with success or not: `run` to its loop,
`save_now` to its caller. -/
def Client.home : Client → Phase
  | .run => .idle
  | .saveNow => .returned

inductive Action where
  | cancel
  | kill
  /-- A slot was picked and its save request is sent. `run` may do so after the
  cancel, since it only looks for it at the top of its loop. -/
  | request (c : Client) (output : List (List UInt8))
  /-- The request fails or times out on the client's side. -/
  | giveUp (c : Client)
  /-- `save_now` ends without a save, or its caller stops waiting. -/
  | drop
  /-- The engine begins the next save: it truncates the temporary file. -/
  | begin
  | write
  | answer (ok : Bool)
  /-- `run` restores the file after a start of the engine, and that fails. -/
  | restoreFails
  /-- `run` returns at the top of its loop. -/
  | stop
  /-- The client makes its next step on the files. -/
  | advance (c : Client)

/-- The next step of `move_with_sidecars` or `remove_with_sidecars`. -/
def advance (c : Client) (s : System) : System :=
  match s.phase c with
  | .answered =>
      let old := (sidecars s.disk s.file).filter fun name =>
        name ≠ tmp s.file && !startsWith name (tmp s.file ++ ".")
      s.setPhase c (.clearing old)
  | .clearing (name :: old) =>
      { s.setPhase c (.clearing old) with disk := s.disk.remove name }
  | .clearing [] =>
      match s.disk.rename (tmp s.file) s.file with
      | none => s.setPhase c c.home
      | some disk => { s.setPhase c .renamed with disk := disk }
  | .renamed => s.setPhase c (.moving (sidecars s.disk (tmp s.file)))
  | .moving (name :: names) =>
      let suffix := String.ofList (name.toList.drop (tmp s.file).length)
      match s.disk.rename name (s.file ++ suffix) with
      | none => s.setPhase c c.home
      | some disk => { s.setPhase c (.moving names) with disk := disk }
  | .moving [] => s.setPhase c c.home
  | .discarding =>
      { s.setPhase c .discarded with disk := s.disk.remove s.file }
  | .discarded => s.setPhase c (.sweeping (sidecars s.disk s.file))
  | .sweeping (name :: names) =>
      { s.setPhase c (.sweeping names) with disk := s.disk.remove name }
  | .sweeping [] => s.setPhase c c.home
  | .idle | .waiting _ | .returned => s

/-- The engine's answer reaches the client unless that has given up. -/
def reply (request : Request) (phase : Phase) (s : System) : System :=
  if s.phase request.client = .waiting request.id then
    s.setPhase request.client phase
  else s

/-- An action that is not possible changes nothing. -/
def act (a : Action) (s : System) : System :=
  if s.killed then s
  else
    match a with
    | .cancel => { s with cancelled := true }
    | .kill => { s with killed := true }
    | .request c output =>
        if s.phase c = .idle ∧ (c = .saveNow → s.cancelled = true) then
          { s.setPhase c (.waiting s.nextId) with
            queue := s.queue ++ [⟨s.nextId, c, output⟩]
            nextId := s.nextId + 1 }
        else s
    | .giveUp c =>
        match s.phase c with
        | .waiting _ => s.setPhase c c.home
        | _ => s
    | .drop => s.setPhase .saveNow .returned
    | .begin =>
        match s.engine, s.queue with
        | .idle _, request :: queue =>
            let opened := s.disk.truncate (tmp s.file)
            { s with
              disk := opened.1
              engine := .writing request opened.2 request.output
              queue := queue }
        | _, _ => s
    | .write =>
        match s.engine with
        | .writing request inode (chunk :: rest) =>
            { s with
              disk := s.disk.append inode chunk
              engine := .writing request inode rest }
        | _ => s
    | .answer true =>
        match s.engine with
        | .writing request _ [] =>
            reply request .answered
              { s with
                engine := .idle true
                finished := request.output.flatten :: s.finished }
        | _ => s
    | .answer false =>
        match s.engine with
        | .writing request _ _ =>
            reply request request.client.home { s with engine := .idle false }
        | _ => s
    | .restoreFails =>
        if s.phase .run = .idle then s.setPhase .run .discarding else s
    | .stop =>
        if s.phase .run = .idle ∧ s.cancelled = true then
          s.setPhase .run .returned
        else s
    | .advance c => advance c s

end AssistantHub.SlotFiles
