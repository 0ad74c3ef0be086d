import Mathlib.Data.List.Basic

namespace AssistantHub.Fallible

/-- The `?` operator: go on after a success, stop at an error. The state of a
step that fails is kept. -/
def andThen {ε σ : Type*} (r : Except ε Unit × σ)
    (next : σ → Except ε Unit × σ) : Except ε Unit × σ :=
  match r.1 with
  | .error err => (.error err, r.2)
  | .ok () => next r.2

theorem exists_ok_of_ne_error {ε α : Type*} {r : Except ε α}
    (h : ∀ err, r ≠ .error err) : ∃ a, r = .ok a := by
  cases r with
  | error err => exact absurd rfl (h err)
  | ok a => exact ⟨a, rfl⟩

theorem andThen_of_ok {ε σ : Type*} {r : Except ε Unit × σ} (h : r.1 = .ok ())
    (next : σ → Except ε Unit × σ) : andThen r next = next r.2 := by
  rw [andThen, h]

theorem andThen_of_error {ε σ : Type*} {r : Except ε Unit × σ} {err : ε}
    (h : r.1 = .error err) (next : σ → Except ε Unit × σ) :
    andThen r next = (.error err, r.2) := by
  rw [andThen, h]

theorem andThen_ok_self {ε σ : Type*} (r : Except ε Unit × σ) :
    andThen r (fun s => (.ok (), s)) = r := by
  obtain ⟨result, s⟩ := r
  cases result with
  | error err => rfl
  | ok => rfl

theorem andThen_fst_eq_ok {ε σ : Type*} (r : Except ε Unit × σ)
    (next : σ → Except ε Unit × σ) :
    (andThen r next).1 = .ok () ↔ r.1 = .ok () ∧ (next r.2).1 = .ok () := by
  obtain ⟨result, s⟩ := r
  cases result with
  | error err => simp [andThen]
  | ok => simp [andThen]

/-- What holds after the first step and is kept by the second one. -/
theorem andThen_snd {ε σ : Type*} {p : σ → Prop} {r : Except ε Unit × σ}
    {next : σ → Except ε Unit × σ} (hr : p r.2)
    (hnext : r.1 = .ok () → p (next r.2).2) : p (andThen r next).2 := by
  obtain ⟨result, s⟩ := r
  cases result with
  | error err => exact hr
  | ok => exact hnext rfl

/-- `Option::context`: a missing value becomes an error with a text. -/
def context {α : Type*} (text : String) : Option α → Except String α
  | some a => .ok a
  | none => .error text

@[simp] theorem context_eq_ok {α : Type*} {text : String} {o : Option α} {a : α} :
    context text o = .ok a ↔ o = some a := by
  cases o <;> simp [context]

theorem bind_eq_ok.{u, v} {ε : Type u} {α β : Type v} {r : Except ε α} {f : α → Except ε β} {b : β} :
    r >>= f = .ok b ↔ ∃ a, r = .ok a ∧ f a = .ok b := by
  cases r with
  | error err => simp [bind, Except.bind]
  | ok a => simp [bind, Except.bind]

theorem map_eq_ok {ε α β : Type*} {r : Except ε α} {f : α → β} {b : β} :
    r.map f = .ok b ↔ ∃ a, r = .ok a ∧ f a = b := by
  cases r with
  | error err => simp [Except.map]
  | ok a => simp [Except.map]

theorem bind_ok_eq_error.{u, v} {ε : Type u} {α β : Type v} {r : Except ε α}
    {f : α → β} {err : ε} :
    (r >>= fun a => .ok (f a)) = .error err ↔ r = .error err := by
  cases r <;> simp [bind, Except.bind]

end AssistantHub.Fallible
