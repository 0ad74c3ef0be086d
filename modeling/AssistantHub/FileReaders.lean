import AssistantHub.BuildArithmetic
import AssistantHub.Fallible
import AssistantHub.LittleEndian

namespace AssistantHub.FileReaders

open AssistantHub.BuildArithmetic
open AssistantHub.Fallible
open AssistantHub.LittleEndian

/-- A regular file. A position in it is a signed 64-bit number, and a seek may
go past the end. -/
structure File where
  bytes : Bytes
  maxPos : Nat
  length_le : bytes.length ≤ maxPos
  maxPos_lt : maxPos < 2 ^ 63

/-- A computation that reads on from a position. -/
abbrev Reader := StateT Nat (Except Failure)

def fail {α : Type} (text : String) : Reader α := fun _ => .error (.error text)

/-- `read_exact` into `n` bytes, with the text of its error. -/
def File.readExact (file : File) (text : String) (n : Nat) : Reader Bytes := fun pos =>
  if n = 0 ∨ pos + n ≤ file.bytes.length then .ok (slice pos n file.bytes, pos + n)
  else .error (.error text)

def File.seekRelative (file : File) (n : Nat) : Reader Unit := fun pos =>
  if pos + n ≤ file.maxPos then .ok ((), pos + n)
  else .error (.error "Invalid argument (os error 22)")

/-- The body of a loop, `count` times. -/
def times : Nat → Reader Unit → Reader Unit
  | 0, _ => pure ()
  | count + 1, body => do
      body
      times count body

/-- A reader never panics and only moves forward, not past the last position,
and what it returns has a property. -/
structure Reads {α : Type} (file : File) (x : Reader α) (Q : α → Prop) : Prop where
  no_panic : ∀ pos, x pos ≠ .error .panic
  forward : ∀ {pos a pos'}, x pos = .ok (a, pos') → pos ≤ pos'
  bounded : ∀ {pos a pos'}, x pos = .ok (a, pos') → pos ≤ file.maxPos →
    pos' ≤ file.maxPos
  result : ∀ {pos a pos'}, x pos = .ok (a, pos') → Q a

variable {α β : Type} {file : File} {x : Reader α} {f : α → Reader β}

theorem bind_run (x : Reader α) (f : α → Reader β) (pos : Nat) :
    (x >>= f) pos = x pos >>= fun r => f r.1 r.2 := rfl

theorem reader_bind_eq_ok {pos pos' : Nat} {b : β} :
    (x >>= f) pos = .ok (b, pos') ↔
      ∃ a next, x pos = .ok (a, next) ∧ f a next = .ok (b, pos') := by
  rw [bind_run, bind_eq_ok]
  constructor
  · rintro ⟨r, hr, hf⟩
    exact ⟨r.1, r.2, hr, hf⟩
  · rintro ⟨a, next, hr, hf⟩
    exact ⟨(a, next), hr, hf⟩

theorem reader_map_eq_ok {g : α → β} {pos pos' : Nat} {b : β} :
    (g <$> x) pos = .ok (b, pos') ↔ ∃ a, x pos = .ok (a, pos') ∧ g a = b := by
  rw [← bind_pure_comp, reader_bind_eq_ok]
  constructor
  · rintro ⟨a, next, hx, hpure⟩
    obtain ⟨hb, rfl⟩ := Prod.mk.inj (Except.ok.inj hpure)
    exact ⟨a, hx, hb⟩
  · rintro ⟨a, hx, rfl⟩
    exact ⟨a, pos', hx, rfl⟩

/-- Two continuations need only agree where the first reader arrives. -/
theorem bind_congr_of_ok {g : α → Reader β} {pos : Nat}
    (h : ∀ a next, x pos = .ok (a, next) → f a next = g a next) :
    (x >>= f) pos = (x >>= g) pos := by
  rw [bind_run, bind_run]
  cases hx : x pos with
  | error failure => rfl
  | ok r => exact h r.1 r.2 hx

section Rules

variable {Q : α → Prop} {R : β → Prop}

theorem Reads.weaken {Q' : α → Prop} (h : Reads file x Q) (hQ : ∀ a, Q a → Q' a) :
    Reads file x Q' :=
  { h with result := fun hx => hQ _ (h.result hx) }

theorem Reads.pure {a : α} (h : Q a) : Reads file (pure a) Q where
  no_panic _ := nofun
  forward hx := by cases hx; exact Nat.le_refl _
  bounded hx hpos := by cases hx; exact hpos
  result hx := by cases hx; exact h

theorem Reads.fail (text : String) : Reads file (FileReaders.fail text) Q where
  no_panic _ := nofun
  forward := nofun
  bounded := nofun
  result := nofun

theorem Reads.bind (hx : Reads file x Q) (hf : ∀ a, Q a → Reads file (f a) R) :
    Reads file (x >>= f) R where
  no_panic pos := by
    rw [bind_run]
    cases hrun : x pos with
    | error failure =>
        intro h
        exact hx.no_panic pos (hrun.trans (congrArg _ (Except.error.inj h)))
    | ok r => exact (hf r.1 (hx.result hrun)).no_panic r.2
  forward h := by
    obtain ⟨a, next, ha, hb⟩ := reader_bind_eq_ok.mp h
    exact (hx.forward ha).trans ((hf a (hx.result ha)).forward hb)
  bounded h hpos := by
    obtain ⟨a, next, ha, hb⟩ := reader_bind_eq_ok.mp h
    exact (hf a (hx.result ha)).bounded hb (hx.bounded ha hpos)
  result h := by
    obtain ⟨a, next, ha, hb⟩ := reader_bind_eq_ok.mp h
    exact (hf a (hx.result ha)).result hb

theorem Reads.map {g : α → β} (hx : Reads file x Q) (hg : ∀ a, Q a → R (g a)) :
    Reads file (g <$> x) R :=
  hx.bind fun a ha => Reads.pure (hg a ha)

theorem readExact_eq_ok {text : String} {n pos pos' : Nat} {bytes : Bytes} :
    file.readExact text n pos = .ok (bytes, pos') ↔
      (n = 0 ∨ pos + n ≤ file.bytes.length) ∧
        slice pos n file.bytes = bytes ∧ pos + n = pos' := by
  rw [File.readExact]
  split
  · simp [*]
  · simp [*]

theorem Reads.readExact (text : String) (n : Nat) :
    Reads file (file.readExact text n) fun bytes => bytes.length ≤ n where
  no_panic pos := by
    rw [File.readExact]
    split <;> nofun
  forward h := by
    obtain ⟨-, -, rfl⟩ := readExact_eq_ok.mp h
    exact Nat.le_add_right _ _
  bounded h hpos := by
    obtain ⟨hroom, -, rfl⟩ := readExact_eq_ok.mp h
    have hlength := file.length_le
    omega
  result h := by
    obtain ⟨-, rfl, -⟩ := readExact_eq_ok.mp h
    exact List.length_take_le _ _

theorem seekRelative_eq_ok {n pos pos' : Nat} {u : Unit} :
    file.seekRelative n pos = .ok (u, pos') ↔
      pos + n ≤ file.maxPos ∧ pos + n = pos' := by
  rw [File.seekRelative]
  split
  · simp [*]
  · simp [*]

theorem Reads.seekRelative (n : Nat) :
    Reads file (file.seekRelative n) fun _ => True where
  no_panic pos := by
    rw [File.seekRelative]
    split <;> nofun
  forward h := by
    obtain ⟨-, rfl⟩ := seekRelative_eq_ok.mp h
    exact Nat.le_add_right _ _
  bounded h _ := by
    obtain ⟨hroom, rfl⟩ := seekRelative_eq_ok.mp h
    exact hroom
  result _ := trivial

theorem Reads.times {body : Reader Unit} (h : Reads file body fun _ => True)
    (count : Nat) : Reads file (times count body) fun _ => True := by
  induction count with
  | zero => exact Reads.pure trivial
  | succ count ih => exact h.bind fun _ _ => ih

end Rules

/-- Two bodies that agree from a position on run the same loop there. -/
theorem times_congr {body body' : Reader Unit} {start : Nat}
    (hreads : Reads file body fun _ => True)
    (h : ∀ pos, start ≤ pos → body' pos = body pos) (count : Nat) {pos : Nat}
    (hpos : start ≤ pos) : times count body' pos = times count body pos := by
  induction count generalizing pos with
  | zero => rfl
  | succ count ih =>
      rw [times, times, bind_run, bind_run, h pos hpos]
      cases hbody : body pos with
      | error failure => rfl
      | ok r => exact ih (hpos.trans (hreads.forward hbody))

end AssistantHub.FileReaders
