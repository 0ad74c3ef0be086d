import Mathlib.Data.List.Basic

namespace AssistantHub.DeliveryLedger

/-- The messages of a channel in the order of their arrival. The first
`received` were taken out, and those of them from `batchFrom` on wait for the
next batch. `compared` counts the messages that were there when the last
successful comparison began; `applied` lists those of successful batches. -/
structure Ledger (α : Type*) where
  arrived : List α
  received : Nat
  batchFrom : Nat
  compared : Nat
  applied : List Nat
  received_le : received ≤ arrived.length
  batchFrom_le : batchFrom ≤ received
  compared_le : compared ≤ arrived.length

def Ledger.empty (α : Type*) : Ledger α where
  arrived := []
  received := 0
  batchFrom := 0
  compared := 0
  applied := []
  received_le := Nat.le_refl 0
  batchFrom_le := Nat.le_refl 0
  compared_le := Nat.le_refl 0

section Operations

variable {α : Type*} (l : Ledger α)

def Ledger.arrive (messages : List α) : Ledger α :=
  { l with
    arrived := l.arrived ++ messages
    received_le := by
      have := l.received_le
      rw [List.length_append]
      omega
    compared_le := by
      have := l.compared_le
      rw [List.length_append]
      omega }

def Ledger.next : Option α := l.arrived[l.received]?

def Ledger.receive : Ledger α :=
  if h : l.received < l.arrived.length then
    { l with
      received := l.received + 1
      received_le := h
      batchFrom_le := Nat.le_succ_of_le l.batchFrom_le }
  else l

def Ledger.compare : Ledger α :=
  { l with
    compared := l.arrived.length
    compared_le := Nat.le_refl _ }

/-- The batch is taken out and carried out, with success or not. -/
def Ledger.takeBatch (ok : Bool) : Ledger α :=
  { l with
    batchFrom := l.received
    batchFrom_le := Nat.le_refl _
    applied :=
      if ok then
        List.range' l.batchFrom (l.received - l.batchFrom) ++ l.applied
      else l.applied }

def Ledger.batch : List α := (l.arrived.take l.received).drop l.batchFrom

end Operations

section Coverage

/- Which messages a batch can cover; the others need a comparison. -/
variable {α : Type*} (p : α → Prop)

/-- The message with this number is of the kind that a batch can cover. -/
def Fits (l : Ledger α) (i : Nat) : Prop := ∃ a, l.arrived[i]? = some a ∧ p a

/-- A comparison that began after the arrival succeeded, or a batch did. -/
def Covered (l : Ledger α) (i : Nat) : Prop :=
  i < l.compared ∨ i ∈ l.applied ∧ Fits p l i

def Waits (l : Ledger α) (i : Nat) : Prop :=
  l.batchFrom ≤ i ∧ i < l.received ∧ Fits p l i

/-- Some received message is neither covered nor waiting. -/
def Owed (l : Ledger α) : Prop :=
  ∃ i < l.received, ¬Covered p l i ∧ ¬Waits p l i

/-- Some waiting message has no other cover than its batch. -/
def AtStake (l : Ledger α) : Prop := ∃ i, Waits p l i ∧ ¬Covered p l i

variable {p} {l : Ledger α}

theorem fits_arrive (messages : List α) {i : Nat} (hi : i < l.arrived.length) :
    Fits p (l.arrive messages) i ↔ Fits p l i := by
  rw [Fits, Fits, Ledger.arrive, List.getElem?_append_left hi]

theorem covered_arrive (messages : List α) {i : Nat} (hi : i < l.received) :
    Covered p (l.arrive messages) i ↔ Covered p l i := by
  have hfits := fits_arrive (p := p) messages (Nat.lt_of_lt_of_le hi l.received_le)
  rw [Covered, Covered, hfits]
  rfl

theorem waits_arrive (messages : List α) (i : Nat) :
    Waits p (l.arrive messages) i ↔ Waits p l i := by
  constructor
  · rintro ⟨hfrom, hi, hfits⟩
    have hlt := Nat.lt_of_lt_of_le hi l.received_le
    exact ⟨hfrom, hi, (fits_arrive messages hlt).mp hfits⟩
  · rintro ⟨hfrom, hi, hfits⟩
    have hlt := Nat.lt_of_lt_of_le hi l.received_le
    exact ⟨hfrom, hi, (fits_arrive messages hlt).mpr hfits⟩

theorem owed_arrive (messages : List α) :
    Owed p (l.arrive messages) ↔ Owed p l := by
  refine exists_congr fun i => and_congr_right fun hi => ?_
  rw [covered_arrive (l := l) messages hi, waits_arrive]

theorem atStake_arrive (messages : List α) :
    AtStake p (l.arrive messages) ↔ AtStake p l := by
  refine exists_congr fun i => ?_
  rw [waits_arrive]
  refine and_congr_right fun hwaits => ?_
  rw [covered_arrive (l := l) messages hwaits.2.1]

theorem receive_of_next {a : α} (h : l.next = some a) :
    ∃ hlt : l.received < l.arrived.length, l.receive =
      { l with
        received := l.received + 1
        received_le := hlt
        batchFrom_le := Nat.le_succ_of_le l.batchFrom_le } := by
  obtain ⟨hlt, -⟩ := List.getElem?_eq_some_iff.mp h
  exact ⟨hlt, dif_pos hlt⟩

theorem owed_receive {a : α} (h : l.next = some a) (ha : p a) :
    Owed p l.receive ↔ Owed p l := by
  obtain ⟨hlt, hreceive⟩ := receive_of_next h
  rw [hreceive]
  constructor
  · rintro ⟨i, hi, hcovered, hwaits⟩
    rcases Nat.lt_succ_iff_lt_or_eq.mp hi with hi | rfl
    · refine ⟨i, hi, hcovered, ?_⟩
      rintro ⟨hfrom, -, hfits⟩
      exact hwaits ⟨hfrom, Nat.lt_succ_of_lt hi, hfits⟩
    · exact absurd ⟨l.batchFrom_le, Nat.lt_succ_self _, a, h, ha⟩ hwaits
  · rintro ⟨i, hi, hcovered, hwaits⟩
    refine ⟨i, Nat.lt_succ_of_lt hi, hcovered, ?_⟩
    rintro ⟨hfrom, -, hfits⟩
    exact hwaits ⟨hfrom, hi, hfits⟩

theorem covered_compare {i : Nat} (hi : i < l.received) :
    Covered p l.compare i :=
  Or.inl (Nat.lt_of_lt_of_le hi l.received_le)

theorem not_owed_compare : ¬Owed p l.compare := by
  rintro ⟨i, hi, hcovered, -⟩
  exact hcovered (covered_compare hi)

theorem not_waits_takeBatch (ok : Bool) (i : Nat) :
    ¬Waits p (l.takeBatch ok) i := by
  rintro ⟨hfrom, hi, -⟩
  exact Nat.not_lt_of_le hfrom hi

theorem covered_takeBatch_true {i : Nat} (hi : i < l.received) :
    Covered p (l.takeBatch true) i ↔ Covered p l i ∨ Waits p l i := by
  have happlied : i ∈ (l.takeBatch true).applied ↔
      l.batchFrom ≤ i ∨ i ∈ l.applied := by
    change i ∈ List.range' _ _ ++ l.applied ↔ _
    rw [List.mem_append, List.mem_range'_1]
    have := l.batchFrom_le
    refine or_congr_left ⟨fun h => h.1, fun h => ⟨h, ?_⟩⟩
    omega
  have hfits : Fits p (l.takeBatch true) i ↔ Fits p l i := Iff.rfl
  rw [Covered, Covered, Waits, happlied, hfits]
  change i < l.compared ∨ _ ↔ _
  tauto

theorem owed_takeBatch_true : Owed p (l.takeBatch true) ↔ Owed p l := by
  refine exists_congr fun i => and_congr_right fun hi => ?_
  rw [covered_takeBatch_true (l := l) hi, not_or, and_assoc]
  exact and_congr_right fun _ => and_iff_left (not_waits_takeBatch true i)

theorem owed_takeBatch_false :
    Owed p (l.takeBatch false) ↔ Owed p l ∨ AtStake p l := by
  constructor
  · rintro ⟨i, hi, hcovered, -⟩
    by_cases hwaits : Waits p l i
    · exact Or.inr ⟨i, hwaits, hcovered⟩
    · exact Or.inl ⟨i, hi, hcovered, hwaits⟩
  · rintro (⟨i, hi, hcovered, -⟩ | ⟨i, hwaits, hcovered⟩)
    · exact ⟨i, hi, hcovered, not_waits_takeBatch false i⟩
    · exact ⟨i, hwaits.2.1, hcovered, not_waits_takeBatch false i⟩

end Coverage

theorem batch_receive {α : Type*} {l : Ledger α} {a : α} (h : l.next = some a) :
    l.receive.batch = l.batch ++ [a] := by
  obtain ⟨hlt, hreceive⟩ := receive_of_next h
  obtain ⟨-, rfl⟩ := List.getElem?_eq_some_iff.mp h
  rw [hreceive, Ledger.batch, Ledger.batch, List.take_succ_eq_append_getElem hlt,
    List.drop_append_of_le_length]
  rw [List.length_take, Nat.min_eq_left l.received_le]
  exact l.batchFrom_le

theorem batch_arrive {α : Type*} (l : Ledger α) (messages : List α) :
    (l.arrive messages).batch = l.batch := by
  rw [Ledger.batch, Ledger.batch, Ledger.arrive,
    List.take_append_of_le_length l.received_le]

theorem batch_takeBatch {α : Type*} (l : Ledger α) (ok : Bool) :
    (l.takeBatch ok).batch = [] := by
  rw [Ledger.batch, Ledger.takeBatch, List.drop_eq_nil_iff, List.length_take]
  exact Nat.min_le_left _ _

theorem mem_batch_of_waits {α : Type*} {p : α → Prop} {l : Ledger α} {i : Nat}
    (h : Waits p l i) : ∃ a ∈ l.batch, l.arrived[i]? = some a ∧ p a := by
  obtain ⟨hfrom, hi, a, ha, hp⟩ := h
  refine ⟨a, List.mem_of_getElem? (i := i - l.batchFrom) ?_, ha, hp⟩
  rw [Ledger.batch, List.getElem?_drop, Nat.add_sub_cancel' hfrom,
    List.getElem?_take_of_lt hi, ha]

end AssistantHub.DeliveryLedger
