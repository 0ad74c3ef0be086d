import AssistantHub.LossyText
import AssistantHub.RunPrefixes
import AssistantHub.Streams
import AssistantHub.UnicodeText
import Mathlib.Data.List.Infix

namespace AssistantHub.ChildOutput

open AssistantHub.CrashSteps
open AssistantHub.LittleEndian
open AssistantHub.LossyText
open AssistantHub.RunPrefixes
open AssistantHub.RustText (isWhitespace)
open AssistantHub.Streams
open AssistantHub.UnicodeText

def tailLines : Nat := 30

def tailLineChars : Nat := 500

def problemWords : List String :=
  ["error", "err [", "fail", "fatal", "abort", "assert", "exception", "panic",
    "segmentation fault", "core dumped", "terminate called", "out of memory", "device lost",
    "warn"]

def timingWords : List String := ["eval time", "total time"]

inductive Level where
  | debug
  | info
  | warn
  deriving DecidableEq, Repr

inductive Pipe where
  | stdout
  | stderr
  deriving DecidableEq, Repr

/-- A line of the log with the pipe that it came from. -/
structure Entry where
  pipe : Pipe
  level : Level
  line : List Char

variable (u : Unicode)

def level (line : List Char) : Level :=
  let lower := u.toLowercase line
  if problemWords.any fun word => decide (word.toList <:+: lower) then .warn
  else if timingWords.any fun word => decide (word.toList <:+: lower) then .info
  else .debug

/-- A line as the tail keeps it. -/
def cutLine (line : List Char) : List Char :=
  if tailLineChars < line.length then line.take tailLineChars ++ ['…'] else line

/-- What the log gets of a line of the child; nothing, where it is blank. -/
def entry (pipe : Pipe) (bytes : Bytes) : Option Entry :=
  let line := (fromUtf8Lossy bytes).toList.rdropWhile isWhitespace
  if line.isEmpty then none else some ⟨pipe, level u line, line⟩

/-- The two readers of a child and what they share. -/
structure Output where
  pending : Pipe → Bytes
  reading : Pipe → Bool
  log : List Entry
  tail : List (List Char)

def Output.start : Output :=
  { pending := fun _ => [], reading := fun _ => true, log := [], tail := [] }

def logLine (pipe : Pipe) (o : Output) (bytes : Bytes) : Output :=
  match entry u pipe bytes with
  | none => o
  | some e =>
      { o with
        log := o.log ++ [e]
        tail := if e.level = .debug then pushLast tailLines o.tail (cutLine e.line)
          else o.tail }

inductive Act where
  | read (pipe : Pipe) (chunk : Bytes)
  | close (pipe : Pipe)
  /-- A read fails, or the supervisor gives the reader up. -/
  | stop (pipe : Pipe)

def Act.pipe : Act → Pipe
  | .read p _ => p
  | .close p => p
  | .stop p => p

def endsLine (b : UInt8) : Bool := b = 10

/-- The effect on the reader of a pipe, until it has ended. -/
def act (a : Act) (o : Output) : Output :=
  match a with
  | .read pipe chunk =>
      if o.reading pipe then
        let (lines, rest) := splitAfter endsLine (o.pending pipe) chunk
        let o := lines.foldl (logLine u pipe) o
        { o with pending := Function.update o.pending pipe rest }
      else o
  | .close pipe =>
      if o.reading pipe then
        let o := if (o.pending pipe).isEmpty then o else logLine u pipe o (o.pending pipe)
        { o with reading := Function.update o.reading pipe false }
      else o
  | .stop pipe => { o with reading := Function.update o.reading pipe false }

/-- The lines that the supervisor logs as warnings when the child has ended. -/
def report (o : Output) : List (List Char) × Output := (o.tail, { o with tail := [] })

/-- What the child has written to a pipe, and whether it has closed it. -/
def streamOf (pipe : Pipe) : List Act → Bytes × Bool
  | [] => ([], false)
  | .read p chunk :: acts =>
      if p = pipe then (chunk ++ (streamOf pipe acts).1, (streamOf pipe acts).2)
      else streamOf pipe acts
  | .close p :: acts => if p = pipe then ([], true) else streamOf pipe acts
  | .stop p :: acts => if p = pipe then ([], false) else streamOf pipe acts

/-- The lines of what has been written; the last may have no end. -/
def linesOf (part : Bytes) (stream : Bytes × Bool) : List Bytes :=
  let (lines, rest) := splitAfter endsLine part stream.1
  if stream.2 && !rest.isEmpty then lines ++ [rest] else lines

section Lines

variable {u} {pipe : Pipe} {o : Output}

theorem log_logLine (bytes : Bytes) :
    (logLine u pipe o bytes).log = o.log ++ (entry u pipe bytes).toList := by
  rw [logLine]
  rcases entry u pipe bytes with _ | e
  · exact (List.append_nil _).symm
  · rfl

@[simp] theorem pending_logLine (bytes : Bytes) :
    (logLine u pipe o bytes).pending = o.pending := by
  rw [logLine]
  rcases entry u pipe bytes with _ | e
  · rfl
  · rfl

@[simp] theorem reading_logLine (bytes : Bytes) :
    (logLine u pipe o bytes).reading = o.reading := by
  rw [logLine]
  rcases entry u pipe bytes with _ | e
  · rfl
  · rfl

theorem foldl_logLine (lines : List Bytes) (o : Output) :
    (lines.foldl (logLine u pipe) o).log = o.log ++ lines.filterMap (entry u pipe) ∧
      (lines.foldl (logLine u pipe) o).pending = o.pending ∧
        (lines.foldl (logLine u pipe) o).reading = o.reading := by
  induction lines generalizing o with
  | nil => exact ⟨(List.append_nil _).symm, rfl, rfl⟩
  | cons bytes lines ih =>
      obtain ⟨hlog, hpending, hreading⟩ := ih (logLine u pipe o bytes)
      rw [List.foldl_cons, hlog, hpending, hreading, log_logLine, pending_logLine,
        reading_logLine, List.append_assoc]
      refine ⟨?_, rfl, rfl⟩
      rcases hentry : entry u pipe bytes with _ | e
      · rw [List.filterMap_cons_none hentry]
        rfl
      · rw [List.filterMap_cons_some hentry]
        rfl

theorem level_eq_warn_iff (line : List Char) :
    level u line = .warn ↔
      ∃ word ∈ problemWords, word.toList <:+: u.toLowercase line := by
  simp only [level, List.any_eq_true, decide_eq_true_eq]
  split
  · rename_i hproblem
    exact iff_of_true rfl hproblem
  · rename_i hproblem
    refine iff_of_false ?_ hproblem
    split
    all_goals simp

theorem level_eq_info_iff (line : List Char) :
    level u line = .info ↔
      (¬∃ word ∈ problemWords, word.toList <:+: u.toLowercase line) ∧
        ∃ word ∈ timingWords, word.toList <:+: u.toLowercase line := by
  simp only [level, List.any_eq_true, decide_eq_true_eq]
  split
  · rename_i hproblem
    simp [hproblem]
  · rename_i hproblem
    split
    all_goals
      rename_i htiming
      simp only [hproblem, htiming]
      simp

/-- The text of a line without whitespace at its end. -/
def textOf (bytes : Bytes) : List Char :=
  (fromUtf8Lossy bytes).toList.rdropWhile isWhitespace

theorem entry_eq_some_iff {bytes : Bytes} {e : Entry} :
    entry u pipe bytes = some e ↔
      textOf bytes ≠ [] ∧ e = ⟨pipe, level u (textOf bytes), textOf bytes⟩ := by
  rw [entry, ← textOf]
  split
  · rename_i hblank
    simp [List.isEmpty_iff.mp hblank]
  · rename_i hline
    rw [List.isEmpty_iff] at hline
    simp [hline, eq_comm]

theorem pipe_of_entry {bytes : Bytes} {e : Entry} (h : entry u pipe bytes = some e) :
    e.pipe = pipe := by
  rw [(entry_eq_some_iff.mp h).2]

/-- The lines of one pipe in the log. -/
def ofPipe (pipe : Pipe) (log : List Entry) : List Entry := log.filter fun e => e.pipe = pipe

theorem ofPipe_append (pipe : Pipe) (log log' : List Entry) :
    ofPipe pipe (log ++ log') = ofPipe pipe log ++ ofPipe pipe log' := List.filter_append ..

theorem ofPipe_self (lines : List Bytes) :
    ofPipe pipe (lines.filterMap (entry u pipe)) = lines.filterMap (entry u pipe) := by
  refine List.filter_eq_self.mpr fun e he => ?_
  obtain ⟨bytes, -, hentry⟩ := List.mem_filterMap.mp he
  exact decide_eq_true (pipe_of_entry hentry)

theorem ofPipe_other {p : Pipe} (h : p ≠ pipe) (lines : List Bytes) :
    ofPipe pipe (lines.filterMap (entry u p)) = [] := by
  refine List.filter_eq_nil_iff.mpr fun e he => ?_
  obtain ⟨bytes, -, hentry⟩ := List.mem_filterMap.mp he
  rw [decide_eq_true_eq, pipe_of_entry hentry]
  exact h

theorem map_line_entries (lines : List Bytes) :
    (lines.filterMap (entry u pipe)).map Entry.line =
      (lines.map textOf).filter fun line => line ≠ [] := by
  induction lines with
  | nil => rfl
  | cons bytes lines ih =>
      by_cases hblank : textOf bytes = []
      · have hnone : entry u pipe bytes = none := by
          rw [Option.eq_none_iff_forall_ne_some]
          exact fun e he => (entry_eq_some_iff.mp he).1 hblank
        rw [List.filterMap_cons_none hnone, ih]
        simp [hblank]
      · rw [List.filterMap_cons_some (entry_eq_some_iff.mpr ⟨hblank, rfl⟩),
          List.map_cons, ih]
        simp [hblank]

end Lines

section Runs

variable {u} {pipe p : Pipe} {o : Output}

theorem act_read (h : o.reading p = true) (chunk : Bytes) :
    (act u (.read p chunk) o).log =
        o.log ++ (splitAfter endsLine (o.pending p) chunk).1.filterMap (entry u p) ∧
      (act u (.read p chunk) o).pending =
          Function.update o.pending p (splitAfter endsLine (o.pending p) chunk).2 ∧
        (act u (.read p chunk) o).reading = o.reading := by
  obtain ⟨hlog, hpending, hreading⟩ :=
    @foldl_logLine u p (splitAfter endsLine (o.pending p) chunk).1 o
  rw [act, if_pos h]
  refine ⟨hlog, ?_, hreading⟩
  exact congrArg (fun f => Function.update f p _) hpending

theorem act_read_of_not (h : o.reading p = false) (chunk : Bytes) :
    act u (.read p chunk) o = o := by
  rw [act, h]
  rfl

theorem act_close (h : o.reading p = true) :
    (act u (.close p) o).log =
        o.log ++ (if (o.pending p).isEmpty then [] else [o.pending p]).filterMap (entry u p) ∧
      (act u (.close p) o).pending = o.pending ∧
        (act u (.close p) o).reading = Function.update o.reading p false := by
  rw [act, if_pos h]
  by_cases hempty : (o.pending p).isEmpty = true
  · simp [hempty]
  · have hone : [o.pending p].filterMap (entry u p) = (entry u p (o.pending p)).toList := by
      rcases hentry : entry u p (o.pending p) with _ | e
      · exact List.filterMap_cons_none hentry
      · exact List.filterMap_cons_some hentry
    simp [hempty, log_logLine, hone]

theorem act_close_of_not (h : o.reading p = false) : act u (.close p) o = o := by
  rw [act, h]
  rfl

/-- The reader of the other pipe goes on as before. -/
theorem act_other {a : Act} (ha : a.pipe ≠ pipe) :
    ofPipe pipe (act u a o).log = ofPipe pipe o.log ∧
      (act u a o).pending pipe = o.pending pipe ∧
        (act u a o).reading pipe = o.reading pipe := by
  rcases a with ⟨p, chunk⟩ | p | p
  all_goals change p ≠ pipe at ha
  · rcases h : o.reading p with _ | _
    · rw [act_read_of_not h]
      exact ⟨rfl, rfl, rfl⟩
    · obtain ⟨hlog, hpending, hreading⟩ := act_read (u := u) h chunk
      rw [hlog, hpending, hreading, ofPipe_append, ofPipe_other ha, List.append_nil,
        Function.update_of_ne (Ne.symm ha)]
      exact ⟨rfl, rfl, rfl⟩
  · rcases h : o.reading p with _ | _
    · rw [act_close_of_not h]
      exact ⟨rfl, rfl, rfl⟩
    · obtain ⟨hlog, hpending, hreading⟩ := act_close (u := u) h
      rw [hlog, hpending, hreading, ofPipe_append, ofPipe_other ha, List.append_nil,
        Function.update_of_ne (Ne.symm ha)]
      exact ⟨rfl, rfl, rfl⟩
  · exact ⟨rfl, rfl, Function.update_of_ne (Ne.symm ha) _ _⟩

theorem run_cons (a : Act) (acts : List Act) (o : Output) :
    run (act u) (a :: acts) o = run (act u) acts (act u a o) := rfl

/-- A reader that has ended logs nothing more. -/
theorem ofPipe_run_of_not (h : o.reading pipe = false) (acts : List Act) :
    ofPipe pipe (run (act u) acts o).log = ofPipe pipe o.log := by
  induction acts generalizing o with
  | nil => rfl
  | cons a acts ih =>
      rw [run_cons]
      by_cases ha : a.pipe = pipe
      · rcases a with ⟨p, chunk⟩ | p | p
        all_goals obtain rfl : p = pipe := ha
        · rw [act_read_of_not h]
          exact ih h
        · rw [act_close_of_not h]
          exact ih h
        · exact ih (Function.update_self _ _ _)
      · obtain ⟨hlog, -, hreading⟩ := act_other (u := u) (o := o) ha
        rw [ih (hreading.trans h), hlog]

theorem linesOf_append (part chunk : Bytes) (stream : Bytes × Bool) :
    linesOf part (chunk ++ stream.1, stream.2) =
      (splitAfter endsLine part chunk).1 ++
        linesOf (splitAfter endsLine part chunk).2 stream := by
  rw [linesOf, linesOf, splitAfter_append]
  dsimp only
  split
  · rw [List.append_assoc]
  · rfl

theorem streamOf_other {a : Act} (ha : a.pipe ≠ pipe) (acts : List Act) :
    streamOf pipe (a :: acts) = streamOf pipe acts := by
  rcases a with ⟨p, chunk⟩ | p | p
  · exact if_neg ha
  · exact if_neg ha
  · exact if_neg ha

theorem streamOf_read (pipe : Pipe) (chunk : Bytes) (acts : List Act) :
    streamOf pipe (.read pipe chunk :: acts) =
      (chunk ++ (streamOf pipe acts).1, (streamOf pipe acts).2) := if_pos rfl

theorem streamOf_close (pipe : Pipe) (acts : List Act) :
    streamOf pipe (.close pipe :: acts) = ([], true) := if_pos rfl

theorem streamOf_stop (pipe : Pipe) (acts : List Act) :
    streamOf pipe (.stop pipe :: acts) = ([], false) := if_pos rfl

/-- A reader logs the lines of what its pipe holds, whatever the chunks are and whatever
comes from the other pipe meanwhile. -/
theorem ofPipe_run (h : o.reading pipe = true) (acts : List Act) :
    ofPipe pipe (run (act u) acts o).log =
      ofPipe pipe o.log ++
        (linesOf (o.pending pipe) (streamOf pipe acts)).filterMap (entry u pipe) := by
  induction acts generalizing o with
  | nil => exact (List.append_nil _).symm
  | cons a acts ih =>
      rw [run_cons]
      by_cases ha : a.pipe = pipe
      · rcases a with ⟨p, chunk⟩ | p | p
        all_goals obtain rfl : p = pipe := ha
        · obtain ⟨hlog, hpending, hreading⟩ := act_read (u := u) h chunk
          rw [ih (hreading ▸ h), hlog, hpending, Function.update_self, streamOf_read,
            linesOf_append, List.filterMap_append, ofPipe_append, ofPipe_self,
            List.append_assoc]
        · obtain ⟨hlog, -, hreading⟩ := act_close (u := u) h
          have hended : (act u (.close p) o).reading p = false := by
            rw [hreading, Function.update_self]
          rw [ofPipe_run_of_not hended, hlog, ofPipe_append, ofPipe_self, streamOf_close,
            linesOf, splitAfter_nil]
          rcases o.pending p with _ | ⟨b, rest⟩
          · rfl
          · rfl
        · have hended : (act u (.stop p) o).reading p = false := Function.update_self _ _ _
          rw [ofPipe_run_of_not hended, streamOf_stop]
          exact (List.append_nil _).symm
      · obtain ⟨hlog, hpending, hreading⟩ := act_other (u := u) (o := o) ha
        rw [ih (hreading.trans h), hlog, hpending, streamOf_other ha]

end Runs

section Tail

variable {u} {pipe : Pipe} {o : Output}

/-- The debug lines, cut as the tail keeps them. -/
def debugLines (log : List Entry) : List (List Char) :=
  (log.filter fun e => e.level = .debug).map fun e => cutLine e.line

/-- The tail holds the last lines of the debug output. -/
def Tailed (o : Output) : Prop := o.tail = (debugLines o.log).rtake tailLines

theorem tailed_logLine (ho : Tailed o) (bytes : Bytes) : Tailed (logLine u pipe o bytes) := by
  rw [logLine]
  rcases entry u pipe bytes with _ | e
  · exact ho
  · rw [Tailed, debugLines, List.filter_append, List.filter_singleton]
    by_cases hlevel : e.level = .debug
    · simp only [hlevel, if_true, decide_true, cond_true, List.map_append, List.map_singleton]
      rw [ho]
      exact rtake_concat 29 _ _
    · simp only [hlevel, if_false, decide_false, cond_false, List.append_nil]
      exact ho

theorem tailed_foldl (lines : List Bytes) (ho : Tailed o) :
    Tailed (lines.foldl (logLine u pipe) o) := by
  induction lines generalizing o with
  | nil => exact ho
  | cons bytes lines ih => exact ih (tailed_logLine ho bytes)

theorem tailed_act (a : Act) (ho : Tailed o) : Tailed (act u a o) := by
  rcases a with ⟨p, chunk⟩ | p | p
  · rw [act]
    split
    · exact tailed_foldl (splitAfter endsLine (o.pending p) chunk).1 ho
    · exact ho
  · rw [act]
    split
    · change Tailed (if (o.pending p).isEmpty then o else logLine u p o (o.pending p))
      split
      · exact ho
      · exact tailed_logLine ho _
    · exact ho
  · exact ho

theorem filter_linesOf (stream : Bytes × Bool) :
    ((linesOf [] stream).map textOf).filter (fun line => line ≠ []) =
      ((if stream.2 then (splitAfter endsLine [] stream.1).1 ++
          [(splitAfter endsLine [] stream.1).2]
        else (splitAfter endsLine [] stream.1).1).map textOf).filter
          fun line => line ≠ [] := by
  rcases stream with ⟨bytes, closed⟩
  rcases hsplit : splitAfter endsLine [] bytes with ⟨lines, rest⟩
  simp only [linesOf, hsplit]
  rcases closed with _ | _
  · rfl
  · rcases rest with _ | ⟨b, rest⟩
    · have hblank : textOf [] = [] := rfl
      simp [hblank]
    · rfl

theorem mem_log_run {acts : List Act} {e : Entry}
    (he : e ∈ (run (act u) acts .start).log) : e.level = level u e.line := by
  have hmem : e ∈ ofPipe e.pipe (run (act u) acts .start).log :=
    List.mem_filter.mpr ⟨he, decide_eq_true rfl⟩
  rw [ofPipe_run rfl] at hmem
  obtain ⟨bytes, -, hentry⟩ := List.mem_filterMap.mp hmem
  rw [(entry_eq_some_iff.mp hentry).2]

/-- Each line that a child writes to a pipe is logged once and in order, however the
bytes arrive, if it is not blank; a line without an end is one when the child closes the
pipe. A report tells the last 30 debug lines of both pipes. -/
theorem output_run (u : Unicode) (acts : List Act) :
    (∀ pipe, ∃ lines rest,
      HasParts (fun b => b = 10) (streamOf pipe acts).1 lines rest ∧
      (ofPipe pipe (run (act u) acts .start).log).map Entry.line =
        ((if (streamOf pipe acts).2 then lines ++ [rest] else lines).map fun bytes =>
          (fromUtf8Lossy bytes).toList.rdropWhile isWhitespace).filter
            fun line => line ≠ []) ∧
    (∀ e ∈ (run (act u) acts .start).log,
      (e.level = .warn ↔
        ∃ word ∈ problemWords, word.toList <:+: u.toLowercase e.line) ∧
      (e.level = .info ↔
        (¬∃ word ∈ problemWords, word.toList <:+: u.toLowercase e.line) ∧
          ∃ word ∈ timingWords, word.toList <:+: u.toLowercase e.line)) ∧
    (report (run (act u) acts .start)).1 =
      (((run (act u) acts .start).log.filter fun e => e.level = .debug).map fun e =>
        if 500 < e.line.length then e.line.take 500 ++ ['…'] else e.line).rtake 30 := by
  refine ⟨?_, ?_, ?_⟩
  · intro pipe
    refine ⟨_, _, @hasParts_splitAfter _ endsLine [] (by simp) _, ?_⟩
    have hlog : ofPipe pipe (run (act u) acts .start).log =
        (linesOf [] (streamOf pipe acts)).filterMap (entry u pipe) := ofPipe_run rfl acts
    rw [hlog, map_line_entries]
    exact filter_linesOf (streamOf pipe acts)
  · intro e he
    rw [mem_log_run he]
    exact ⟨level_eq_warn_iff e.line, level_eq_info_iff e.line⟩
  · exact run_invariant (p := Tailed) (fun a o ho => tailed_act a ho) acts
      (List.rtake_nil _).symm

end Tail

end AssistantHub.ChildOutput
