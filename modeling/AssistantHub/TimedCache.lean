import AssistantHub.RunPrefixes

namespace AssistantHub.TimedCache

open AssistantHub.CrashSteps
open AssistantHub.RunPrefixes

variable {K V E : Type*}

/-- The last value that was fetched, and when. -/
structure Cached (K V : Type*) where
  key : K
  since : Nat
  value : V

/-- A value that is wanted: when, for which key, what a request for it would give, and
when. -/
structure Fetch (K V E : Type*) where
  now : Nat
  key : K
  reply : Except E V
  got : Nat
  le : now ≤ got

variable [DecidableEq K] (ttl : Nat)

/-- The value of the cache, for the same key and not too old. -/
def lookup (f : Fetch K V E) (cache : Option (Cached K V)) : Option V :=
  cache.bind fun c => if c.key = f.key ∧ f.now - c.since < ttl then some c.value else none

/-- A failed request leaves the cache as it is. -/
def fetch (f : Fetch K V E) (cache : Option (Cached K V)) :
    Except E V × Option (Cached K V) :=
  match lookup ttl f cache with
  | some v => (.ok v, cache)
  | none =>
      match f.reply with
      | .error err => (.error err, cache)
      | .ok v => (.ok v, some ⟨f.key, f.got, v⟩)

def refresh (f : Fetch K V E) (cache : Option (Cached K V)) : Option (Cached K V) :=
  (fetch ttl f cache).2

variable {ttl}

theorem fetch_cases (f : Fetch K V E) (cache : Option (Cached K V)) :
    (∃ c, cache = some c ∧ c.key = f.key ∧ f.now - c.since < ttl ∧
        fetch ttl f cache = (.ok c.value, cache)) ∨
      (∃ v, f.reply = .ok v ∧ fetch ttl f cache = (.ok v, some ⟨f.key, f.got, v⟩)) ∨
        ∃ err, f.reply = .error err ∧ fetch ttl f cache = (.error err, cache) := by
  rw [fetch]
  split
  · rename_i v hv
    obtain ⟨c, hc, hfresh⟩ := Option.bind_eq_some_iff.mp hv
    split at hfresh
    · rename_i hcond
      exact Or.inl ⟨c, hc, hcond.1, hcond.2, by rw [Option.some.inj hfresh]⟩
    · cases hfresh
  · split
    · rename_i err herr
      exact Or.inr (Or.inr ⟨err, herr, rfl⟩)
    · rename_i v hv
      exact Or.inr (Or.inl ⟨v, hv, rfl⟩)

theorem cached_run (fs : List (Fetch K V E)) :
    ∀ c ∈ run (refresh ttl) fs none,
      ∃ g ∈ fs, g.key = c.key ∧ g.got = c.since ∧ g.reply = .ok c.value := by
  induction fs using List.reverseRecOn with
  | nil =>
      intro c hc
      cases hc
  | append_singleton fs f ih =>
      have hold : ∀ c ∈ run (refresh ttl) fs none,
          ∃ g ∈ fs ++ [f], g.key = c.key ∧ g.got = c.since ∧ g.reply = .ok c.value := by
        intro c hc
        obtain ⟨g, hg, hrest⟩ := ih c hc
        exact ⟨g, List.mem_append_left _ hg, hrest⟩
      rw [run_concat, refresh]
      rcases @fetch_cases K V E _ ttl f (run (refresh ttl) fs none) with
        ⟨c, -, -, -, heq⟩ | ⟨v, hv, heq⟩ | ⟨err, -, heq⟩
      · rw [heq]
        exact hold
      · rw [heq]
        intro c hc
        obtain rfl := Option.some.inj hc
        exact ⟨f, List.mem_append_right _ (List.mem_singleton_self f), rfl, rfl, hv⟩
      · rw [heq]
        exact hold

/-- A value that is handed out has been fetched for its key, not too long ago. -/
theorem fetch_run (hpos : 0 < ttl) (fs : List (Fetch K V E)) (f : Fetch K V E) {v : V}
    (h : (fetch ttl f (run (refresh ttl) fs none)).1 = .ok v) :
    ∃ g ∈ fs ++ [f], g.key = f.key ∧ f.now - g.got < ttl ∧ g.reply = .ok v := by
  rcases @fetch_cases K V E _ ttl f (run (refresh ttl) fs none) with
    ⟨c, hc, hkey, hfresh, heq⟩ | ⟨w, hw, heq⟩ | ⟨err, -, heq⟩
  · rw [heq] at h
    obtain rfl := Except.ok.inj h
    obtain ⟨g, hg, hgkey, hgnow, hgreply⟩ := cached_run fs c hc
    exact ⟨g, List.mem_append_left _ hg, hgkey.trans hkey, hgnow ▸ hfresh, hgreply⟩
  · rw [heq] at h
    obtain rfl := Except.ok.inj h
    refine ⟨f, List.mem_append_right _ (List.mem_singleton_self f), rfl, ?_, hw⟩
    rw [Nat.sub_eq_zero_of_le f.le]
    exact hpos
  · rw [heq] at h
    cases h

end AssistantHub.TimedCache
