import AssistantHub.FileReaders

namespace AssistantHub.FileContents

open AssistantHub.BuildArithmetic
open AssistantHub.FileReaders
open AssistantHub.LittleEndian

/-- The file has `content` at a position. -/
def Holds (file : File) (pos : Nat) (content : Bytes) : Prop :=
  ∃ before after, file.bytes = before ++ (content ++ after) ∧ before.length = pos

/-- Wherever a file has `content`, a reader reads just that and returns `a`. -/
def Decodes {α : Type} (file : File) (x : Reader α) (content : Bytes) (a : α) :
    Prop :=
  ∀ ⦃pos⦄, Holds file pos content → x pos = .ok (a, pos + content.length)

variable {α β : Type} {file : File} {x : Reader α} {content content' : Bytes}
  {a : α} {pos : Nat}

theorem Holds.left (h : Holds file pos (content ++ content')) :
    Holds file pos content := by
  obtain ⟨before, after, hfile, hpos⟩ := h
  exact ⟨before, content' ++ after, by rw [hfile, List.append_assoc], hpos⟩

theorem Holds.right (h : Holds file pos (content ++ content')) :
    Holds file (pos + content.length) content' := by
  obtain ⟨before, after, hfile, hpos⟩ := h
  refine ⟨before ++ content, after, ?_, ?_⟩
  · rw [hfile, List.append_assoc, List.append_assoc]
  · rw [List.length_append, hpos]

theorem Holds.le_length (h : Holds file pos content) :
    pos + content.length ≤ file.bytes.length := by
  obtain ⟨before, after, hfile, rfl⟩ := h
  rw [hfile, List.length_append, List.length_append]
  omega

theorem Holds.length_lt (h : Holds file pos content) :
    content.length < 2 ^ 63 := by
  have hlength := h.le_length
  have hmax := file.length_le
  have hword := file.maxPos_lt
  omega

theorem Holds.slice (h : Holds file pos content) :
    slice pos content.length file.bytes = content := by
  obtain ⟨before, after, hfile, rfl⟩ := h
  rw [LittleEndian.slice, hfile, List.drop_left, List.take_left]

section Rules

theorem Decodes.pure (a : α) : Decodes file (pure a) [] a := by
  intro pos _
  rfl

theorem Decodes.bind_run {f : α → Reader β} (hx : Decodes file x content a)
    (h : Holds file pos content) :
    (x >>= f) pos = f a (pos + content.length) := by
  rw [FileReaders.bind_run, hx h]
  rfl

theorem Decodes.bind {f : α → Reader β} {b : β} (hx : Decodes file x content a)
    (hf : Decodes file (f a) content' b) :
    Decodes file (x >>= f) (content ++ content') b := by
  intro pos h
  rw [reader_bind_eq_ok]
  refine ⟨a, pos + content.length, hx h.left, ?_⟩
  rw [List.length_append, ← Nat.add_assoc]
  exact hf h.right

theorem Decodes.map (hx : Decodes file x content a) (g : α → β) :
    Decodes file (g <$> x) content (g a) := by
  intro pos h
  rw [reader_map_eq_ok]
  exact ⟨a, hx h, rfl⟩

theorem Decodes.bind_pure (hx : Decodes file x content a) (g : α → β) :
    Decodes file (do let a ← x; return g a) content (g a) := by
  rw [← List.append_nil content]
  exact hx.bind (Decodes.pure (g a))

theorem Decodes.readExact (text : String) (content : Bytes) :
    Decodes file (file.readExact text content.length) content content := by
  intro pos h
  rw [readExact_eq_ok]
  exact ⟨Or.inr h.le_length, h.slice, rfl⟩

theorem Decodes.seekRelative (content : Bytes) :
    Decodes file (file.seekRelative content.length) content () := by
  intro pos h
  rw [seekRelative_eq_ok]
  exact ⟨h.le_length.trans file.length_le, rfl⟩

/-- A loop over values that one after the other are read by its body. -/
theorem Decodes.times {body : Reader Unit} {contents : List Bytes}
    (h : ∀ content ∈ contents, Decodes file body content ()) :
    Decodes file (times contents.length body) contents.flatten () := by
  induction contents with
  | nil => exact Decodes.pure ()
  | cons content contents ih =>
      rw [List.forall_mem_cons] at h
      exact h.1.bind (ih h.2)

end Rules

/-- What a reader reads, another one reads as well. -/
def Follows {α : Type} (y x : Reader α) : Prop :=
  ∀ ⦃pos a pos'⦄, x pos = .ok (a, pos') → y pos = .ok (a, pos')

section Prefixes

theorem Follows.refl (x : Reader α) : Follows x x :=
  fun _ _ _ h => h

theorem Follows.fail (y : Reader α) (text : String) : Follows y (fail text) := by
  intro pos a pos' h
  cases h

theorem Follows.bind {y : Reader α} {f g : α → Reader β} (hx : Follows y x)
    (hf : ∀ a, Follows (g a) (f a)) : Follows (y >>= g) (x >>= f) := by
  intro pos b pos' h
  obtain ⟨a, next, ha, hb⟩ := reader_bind_eq_ok.mp h
  exact reader_bind_eq_ok.mpr ⟨a, next, hx ha, hf a hb⟩

theorem Follows.map {y : Reader α} (hx : Follows y x) (g : α → β) :
    Follows (g <$> y) (g <$> x) := by
  intro pos b pos' h
  obtain ⟨a, ha, hb⟩ := reader_map_eq_ok.mp h
  exact reader_map_eq_ok.mpr ⟨a, hx ha, hb⟩

theorem Follows.ite {y x' y' : Reader α} {c : Prop} [Decidable c]
    (h : Follows y x) (h' : Follows y' x') :
    Follows (if c then y else y') (if c then x else x') := by
  split
  · exact h
  · exact h'

theorem Follows.times {body body' : Reader Unit} (h : Follows body' body)
    (count : Nat) : Follows (times count body') (times count body) := by
  induction count with
  | zero => exact Follows.refl _
  | succ count ih => exact h.bind fun _ => ih

/-- The beginning of a file, on a file system whose files are not longer. -/
structure Cut (file cut : File) : Prop where
  isPrefix : cut.bytes <+: file.bytes
  maxPos_le : cut.maxPos ≤ file.maxPos

variable {cut : File}

theorem Follows.readExact (h : Cut file cut) (text : String) (n : Nat) :
    Follows (file.readExact text n) (cut.readExact text n) := by
  intro pos bytes pos' hread
  obtain ⟨hroom, rfl, rfl⟩ := readExact_eq_ok.mp hread
  obtain ⟨after, hfile⟩ := h.isPrefix
  rw [readExact_eq_ok, ← hfile]
  rcases hroom with rfl | hroom
  · exact ⟨Or.inl rfl, by rw [slice, slice, List.take_zero, List.take_zero], rfl⟩
  · refine ⟨Or.inr ?_, ?_, rfl⟩
    · rw [List.length_append]
      omega
    · rw [slice, slice, List.drop_append_of_le_length (by omega),
        List.take_append_of_le_length]
      rw [List.length_drop]
      omega

theorem Follows.seekRelative (h : Cut file cut) (n : Nat) :
    Follows (file.seekRelative n) (cut.seekRelative n) := by
  intro pos u pos' hseek
  obtain ⟨hroom, rfl⟩ := seekRelative_eq_ok.mp hseek
  exact seekRelative_eq_ok.mpr ⟨hroom.trans h.maxPos_le, rfl⟩

end Prefixes

end AssistantHub.FileContents
