import AssistantHub.FileReaders

namespace AssistantHub.CountedReaders

open AssistantHub.BuildArithmetic
open AssistantHub.FileReaders
open AssistantHub.LittleEndian

/-- Why a counted reader ends without a value. -/
inductive Stop
  | failed (failure : Failure)
  | tooDeep
  deriving DecidableEq, Repr

/-- A reader that counts its steps, also those before a failure. -/
abbrev Counted := StateT Nat (ExceptT Stop (StateM Nat))

def stop {α : Type} (why : Stop) : Counted α := fun _ steps => (.error why, steps)

/-- A reader that makes no steps of its own. -/
def uncounted {α : Type} (x : Reader α) : Counted α := fun pos steps =>
  match x pos with
  | .ok r => (.ok r, steps)
  | .error failure => (.error (.failed failure), steps)

/-- One step, a round of a loop or a recursive call. -/
def counting {α : Type} (x : Counted α) : Counted α := fun pos steps =>
  x pos (steps + 1)

/-- The body of a loop, `count` times. -/
def timesCounted : Nat → Counted Unit → Counted Unit
  | 0, _ => pure ()
  | count + 1, body => do
      counting body
      timesCounted count body

/-- How much of the file is ahead of a position. -/
def unread (file : File) (pos : Nat) : Nat := file.bytes.length - pos

/-- A reader that does not fail takes `n` bytes of the file. -/
def Consumes {α : Type} (file : File) (x : Reader α) (n : Nat) : Prop :=
  ∀ ⦃pos a pos'⦄, x pos = .ok (a, pos') → unread file pos' + n ≤ unread file pos

/-- From a position the counted reader does what `y` does. Each step is paid with
four bytes of the file, with `gain` left over, and a failure leaves at most
`debt` unpaid. -/
structure Pays {α : Type} (file : File) (x : Counted α) (y : Reader α)
    (gain debt pos : Nat) : Prop where
  ok : ∀ {a pos'}, y pos = .ok (a, pos') → ∀ steps, ∃ steps',
    x pos steps = (.ok (a, pos'), steps') ∧ steps ≤ steps' ∧
      4 * steps' + gain + unread file pos' ≤ 4 * steps + unread file pos
  error : ∀ {failure}, y pos = .error failure → ∀ steps, ∃ steps',
    x pos steps = (.error (.failed failure), steps') ∧ steps ≤ steps' ∧
      4 * steps' ≤ 4 * steps + debt + unread file pos

variable {α β : Type} {file : File} {x : Counted α} {y : Reader α}
  {f : α → Counted β} {g : α → Reader β} {gain gain' debt debt' pos : Nat}

theorem bind_counted_ok {a : α} {pos' steps steps' : Nat}
    (h : x pos steps = (.ok (a, pos'), steps')) :
    (x >>= f) pos steps = f a pos' steps' := by
  simp only [bind, StateT.bind, ExceptT.bind, ExceptT.mk, h]
  rfl

theorem bind_counted_error {why : Stop} {steps steps' : Nat}
    (h : x pos steps = (.error why, steps')) :
    (x >>= f) pos steps = (.error why, steps') := by
  simp only [bind, StateT.bind, ExceptT.bind, ExceptT.mk, h]
  rfl

theorem bind_reader_error {failure : Failure} (h : y pos = .error failure) :
    (y >>= g) pos = .error failure := by
  rw [bind_run, h]
  rfl

theorem bind_reader_ok {a : α} {pos' : Nat} (h : y pos = .ok (a, pos')) :
    (y >>= g) pos = g a pos' := by
  rw [bind_run, h]
  rfl

section Consumption

variable {n m : Nat}

theorem Consumes.weaken (h : Consumes file y n) (hle : m ≤ n) :
    Consumes file y m := by
  intro pos a pos' hy
  have hn := h hy
  omega

theorem Consumes.fail (text : String) :
    Consumes file (FileReaders.fail text : Reader α) n := by
  intro pos a pos' hy
  cases hy

theorem Consumes.of_reads {Q : α → Prop} (h : Reads file y Q) :
    Consumes file y 0 := by
  intro pos a pos' hy
  have hforward := h.forward hy
  rw [unread, unread]
  omega

theorem Consumes.readExact (text : String) (n : Nat) :
    Consumes file (file.readExact text n) n := by
  intro pos bytes pos' hy
  obtain ⟨hroom, -, rfl⟩ := readExact_eq_ok.mp hy
  rw [unread, unread]
  omega

theorem Consumes.bind (hy : Consumes file y n)
    (hg : ∀ a, Consumes file (g a) m) : Consumes file (y >>= g) (n + m) := by
  intro pos b pos' h
  obtain ⟨a, next, ha, hb⟩ := reader_bind_eq_ok.mp h
  have hfirst := hy ha
  have hsecond := hg a hb
  omega

theorem Consumes.map {g : α → β} (hy : Consumes file y n) :
    Consumes file (g <$> y) n := by
  intro pos b pos' h
  obtain ⟨a, ha, -⟩ := reader_map_eq_ok.mp h
  exact hy ha

end Consumption

section Rules

theorem Pays.weaken (h : Pays file x y gain debt pos) (hgain : gain' ≤ gain)
    (hdebt : debt ≤ debt') : Pays file x y gain' debt' pos where
  ok hy steps := by
    obtain ⟨steps', hx, hmore, hpaid⟩ := h.ok hy steps
    exact ⟨steps', hx, hmore, by omega⟩
  error hy steps := by
    obtain ⟨steps', hx, hmore, hpaid⟩ := h.error hy steps
    exact ⟨steps', hx, hmore, by omega⟩

theorem Pays.pure (a : α) : Pays file (pure a) (pure a) 0 0 pos where
  ok hy steps := by
    cases hy
    exact ⟨steps, rfl, Nat.le_refl _, by omega⟩
  error := nofun

theorem Pays.uncounted (h : Consumes file y gain) :
    Pays file (uncounted y) y gain 0 pos where
  ok hy steps := by
    have hgain := h hy
    refine ⟨steps, ?_, Nat.le_refl _, by omega⟩
    simp only [CountedReaders.uncounted, hy]
  error hy steps := by
    refine ⟨steps, ?_, Nat.le_refl _, by omega⟩
    simp only [CountedReaders.uncounted, hy]

/-- What the first reader has left over pays for the failures of the second. -/
theorem Pays.bind (hx : Pays file x y gain debt pos) (hdebt : debt' ≤ debt + gain)
    (hf : ∀ a next, y pos = .ok (a, next) →
      Pays file (f a) (g a) gain' debt' next) :
    Pays file (x >>= f) (y >>= g) (gain + gain') debt pos where
  ok h steps := by
    obtain ⟨a, next, hy, hg⟩ := reader_bind_eq_ok.mp h
    obtain ⟨between, hfirst, hmore, hpaid⟩ := hx.ok hy steps
    obtain ⟨steps', hsecond, hmore', hpaid'⟩ := (hf a next hy).ok hg between
    exact ⟨steps', (bind_counted_ok hfirst).trans hsecond, hmore.trans hmore',
      by omega⟩
  error {failure} h steps := by
    rcases hy : y pos with failure' | ⟨a, next⟩
    · obtain rfl := Except.error.inj ((bind_reader_error hy).symm.trans h)
      obtain ⟨steps', hfirst, hmore, hpaid⟩ := hx.error hy steps
      exact ⟨steps', bind_counted_error hfirst, hmore, hpaid⟩
    · obtain ⟨between, hfirst, hmore, hpaid⟩ := hx.ok hy steps
      have hg := (bind_reader_ok hy).symm.trans h
      obtain ⟨steps', hsecond, hmore', hpaid'⟩ := (hf a next hy).error hg between
      exact ⟨steps', (bind_counted_ok hfirst).trans hsecond, hmore.trans hmore',
        by omega⟩

theorem Pays.counting (h : Pays file x y (gain + 4) debt pos) :
    Pays file (counting x) y gain (debt + 4) pos where
  ok hy steps := by
    obtain ⟨steps', hx, hmore, hpaid⟩ := h.ok hy (steps + 1)
    exact ⟨steps', hx, by omega, by omega⟩
  error hy steps := by
    obtain ⟨steps', hx, hmore, hpaid⟩ := h.error hy (steps + 1)
    exact ⟨steps', hx, by omega, by omega⟩

/-- By induction on the count: each round pays for its own step. -/
theorem Pays.times {x : Counted Unit} {y : Reader Unit} {start : Nat}
    (hreads : Reads file y fun _ => True)
    (h : ∀ pos, start ≤ pos → Pays file x y 4 debt pos) (count : Nat) {pos : Nat}
    (hpos : start ≤ pos) :
    Pays file (timesCounted count x) (times count y) 0 (debt + 4) pos := by
  induction count generalizing pos with
  | zero => exact (Pays.pure ()).weaken (Nat.le_refl _) (Nat.zero_le _)
  | succ count ih =>
      have hround : Pays file (CountedReaders.counting x) y 0 (debt + 4) pos :=
        (h pos hpos).counting
      exact hround.bind (Nat.le_refl _) fun _ next hy =>
        ih (hpos.trans (hreads.forward hy))

theorem Pays.consumes (h : ∀ pos, Pays file x y gain debt pos) :
    Consumes file y gain := by
  intro pos a pos' hy
  obtain ⟨steps', -, hmore, hpaid⟩ := (h pos).ok hy 0
  omega

/-- From the beginning of a file, every run ends as `y` does, and its steps are
at most a quarter of the bytes. -/
theorem Pays.run (h : Pays file x y gain 0 0) :
    (x 0 0).1.map Prod.fst = ((y 0).map Prod.fst).mapError .failed ∧
      4 * (x 0 0).2 ≤ file.bytes.length := by
  rcases hy : y 0 with failure | ⟨a, pos'⟩
  · obtain ⟨steps', hx, -, hpaid⟩ := h.error hy 0
    rw [unread] at hpaid
    rw [hx]
    exact ⟨rfl, by omega⟩
  · obtain ⟨steps', hx, -, hpaid⟩ := h.ok hy 0
    rw [unread, unread] at hpaid
    rw [hx]
    exact ⟨rfl, by omega⟩

end Rules

end AssistantHub.CountedReaders
