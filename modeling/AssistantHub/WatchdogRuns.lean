import AssistantHub.ChildRuns
import AssistantHub.Streaks

namespace AssistantHub.WatchdogRuns

open ChildRuns Streaks

/-- The outcome of a probe and the elapsed time at which it is judged. -/
structure Probe where
  ok : Bool
  elapsed : Nat

/-- The watcher after the probes, of which it makes none once it has cancelled
`fatal`. -/
def watch (health : Health) (restartWhenHealthy : Bool) (probes : List Probe) :
    Watch :=
  probes.foldl
    (fun w p => w.probe health restartWhenHealthy p.elapsed p.ok) Watch.start

def succeeded (probes : List Probe) (i : Nat) : Bool :=
  probes[i]?.any fun p => p.ok

/-- A failed probe counts when some earlier one succeeded or when the start
grace is over. -/
def counts (health : Health) (probes : List Probe) (i : Nat) : Bool :=
  probes[i]?.any fun p =>
    !p.ok && ((probes.take i).any (fun q => q.ok) ||
      decide (health.startGrace ≤ p.elapsed))

/-- The last `failures` probes up to `k` all failed, and each of them counts. -/
def HangAt (health : Health) (probes : List Probe) (k : Nat) : Prop :=
  health.failures ≤ k + 1 ∧
    ∀ i, k + 1 - health.failures ≤ i → i ≤ k → counts health probes i = true

/-- The watcher stops at `k`: the child hangs, or it answers and is to be
restarted as soon as it does. -/
def StopsAt (health : Health) (restartWhenHealthy : Bool) (probes : List Probe)
    (k : Nat) : Prop :=
  HangAt health probes k ∨
    restartWhenHealthy = true ∧ succeeded probes k = true

/-- The clock of the probes never goes back. -/
def Ordered (probes : List Probe) : Prop :=
  probes.Pairwise fun p q => p.elapsed ≤ q.elapsed

theorem hangAt_iff_streak {health : Health} {probes : List Probe} (k : Nat) :
    HangAt health probes k ↔
      health.failures ≤ streak (counts health probes) (List.range (k + 1)) := by
  rw [le_streak_range_iff, HangAt]
  refine and_congr_right fun _ => forall_congr' fun i => ?_
  rw [Nat.lt_succ_iff]

section Steps

variable {health : Health} {restart : Bool} {probes : List Probe} {k : Nat}
  {p : Probe}

theorem watch_take_succ (hp : probes[k]? = some p) :
    watch health restart (probes.take (k + 1)) =
      (watch health restart (probes.take k)).probe health restart p.elapsed
        p.ok := by
  rw [watch, List.take_add_one, hp, List.foldl_append]
  rfl

theorem watch_take_of_length_le (hk : probes.length ≤ k) :
    watch health restart (probes.take (k + 1)) =
      watch health restart (probes.take k) := by
  rw [List.take_of_length_le hk, List.take_of_length_le (hk.trans k.le_succ)]

theorem watch_frozen {n : Nat}
    (h : (watch health restart (probes.take n)).fatal = true) (hnk : n ≤ k) :
    watch health restart (probes.take k) =
      watch health restart (probes.take n) := by
  induction k, hnk using Nat.le_induction with
  | base => rfl
  | succ k _ ih =>
      cases hp : probes[k]? with
      | none =>
          rw [watch_take_of_length_le (List.getElem?_eq_none_iff.mp hp), ih]
      | some p => rw [watch_take_succ hp, ih, Watch.probe, if_pos h]

theorem succeeded_eq (hp : probes[k]? = some p) :
    succeeded probes k = p.ok := by
  rw [succeeded, hp, Option.any_some]

theorem any_take_succ (hp : probes[k]? = some p) :
    (probes.take (k + 1)).any (fun q => q.ok) =
      ((probes.take k).any (fun q => q.ok) || p.ok) := by
  rw [List.take_add_one, hp, List.any_append]
  simp

theorem counts_eq (hp : probes[k]? = some p) :
    counts health probes k =
      (!p.ok && ((probes.take k).any (fun q => q.ok) ||
        decide (health.startGrace ≤ p.elapsed))) := by
  rw [counts, hp, Option.any_some]

end Steps

/-- The watcher after `n` probes none of which stopped it. Its counter is the
number of counted failures at the end of the history. -/
structure Running (health : Health) (probes : List Probe) (n : Nat)
    (w : Watch) : Prop where
  seenHealthy : w.seenHealthy = (probes.take n).any fun p => p.ok
  healthy : w.healthy = w.seenHealthy
  failed : w.failed = streak (counts health probes) (List.range n)
  failed_lt : w.failed < health.failures
  replace : w.replace = false
  fatal : w.fatal = false

namespace Running

variable {health : Health} {restart : Bool} {probes : List Probe} {k : Nat}
  {w : Watch} {p : Probe}

theorem start (hfailures : 1 ≤ health.failures) :
    Running health probes 0 Watch.start where
  seenHealthy := rfl
  healthy := rfl
  failed := rfl
  failed_lt := hfailures
  replace := rfl
  fatal := rfl

theorem streak_succ (hw : Running health probes k w) :
    streak (counts health probes) (List.range (k + 1)) =
      if counts health probes k = true then w.failed + 1 else 0 := by
  rw [List.range_succ, streak_concat, hw.failed]

theorem hangAt_iff (hw : Running health probes k w) :
    HangAt health probes k ↔
      counts health probes k = true ∧ health.failures ≤ w.failed + 1 := by
  have hfew := hw.failed_lt
  rw [hangAt_iff_streak, hw.streak_succ]
  split
  · rename_i hcounts
    rw [and_iff_right hcounts]
  · rename_i hcounts
    refine iff_of_false ?_ fun h => hcounts h.1
    omega

/-- Before the first success, a failure within the start grace finds the
counter at zero: no failure before it was later than the grace. -/
theorem failed_eq_zero (hw : Running health probes k w)
    (hp : probes[k]? = some p) (hordered : Ordered probes)
    (hseen : w.seenHealthy = false) (hgrace : p.elapsed < health.startGrace) :
    w.failed = 0 := by
  by_contra hne
  have hone : 1 ≤ w.failed := Nat.one_le_iff_ne_zero.mpr hne
  rw [hw.failed, le_streak_range_iff] at hone
  obtain ⟨hk, hlast⟩ := hone
  have hcounts := hlast (k - 1) (Nat.le_refl _) (by omega)
  obtain ⟨hklen, rfl⟩ := List.getElem?_eq_some_iff.mp hp
  have hprevious : probes[k - 1]? = some probes[k - 1] :=
    List.getElem?_eq_getElem (by omega)
  rw [counts_eq hprevious, Bool.and_eq_true, Bool.or_eq_true,
    decide_eq_true_iff] at hcounts
  rcases hcounts.2 with hearlier | hlate
  · rw [hw.seenHealthy] at hseen
    rw [List.any_eq_true] at hearlier
    obtain ⟨q, hq, hok⟩ := hearlier
    rw [List.any_eq_false] at hseen
    exact hseen q (List.mem_of_mem_take
      (by rwa [List.take_take, Nat.min_eq_left (Nat.sub_le k 1)])) hok
  · have hle := List.pairwise_iff_getElem.mp hordered (k - 1) k (by omega)
      hklen (by omega)
    omega

theorem counts_success (hp : probes[k]? = some p) (hok : p.ok = true) :
    counts health probes k = false := by
  rw [counts_eq hp, hok]
  rfl

theorem counts_failure (hw : Running health probes k w)
    (hp : probes[k]? = some p) (hok : p.ok = false) :
    counts health probes k = true ↔
      ¬(w.seenHealthy = false ∧ p.elapsed < health.startGrace) := by
  rw [counts_eq hp, hok, ← hw.seenHealthy, Bool.not_false, Bool.true_and,
    Bool.or_eq_true, decide_eq_true_iff, not_and_or, Bool.not_eq_false,
    Nat.not_lt]

theorem not_fatal (hw : Running health probes k w) : ¬w.fatal = true := by
  rw [hw.fatal]
  exact Bool.false_ne_true

theorem step_failure (hw : Running health probes k w)
    (hp : probes[k]? = some p) (hordered : Ordered probes)
    (hok : p.ok = false) (hhang : ¬HangAt health probes k) :
    Running health probes (k + 1)
      (w.probe health restart p.elapsed p.ok) := by
  have hany := any_take_succ hp
  rw [hok, Bool.or_false, ← hw.seenHealthy] at hany
  rw [hw.hangAt_iff] at hhang
  rw [Watch.probe, if_neg hw.not_fatal, hok, if_neg Bool.false_ne_true]
  split
  · rename_i hgrace
    have hcounts : ¬counts health probes k = true := by
      rw [hw.counts_failure hp hok]
      exact not_not_intro hgrace
    refine { hw with seenHealthy := hany.symm, failed := ?_ }
    rw [hw.streak_succ, if_neg hcounts]
    exact hw.failed_eq_zero hp hordered hgrace.1 hgrace.2
  · rename_i hgrace
    have hcounts := (hw.counts_failure hp hok).mpr hgrace
    have hfew : w.failed + 1 < health.failures :=
      Nat.lt_of_not_le fun h => hhang ⟨hcounts, h⟩
    refine ⟨hany.symm, hw.healthy, ?_, hfew, hw.replace, ?_⟩
    · rw [hw.streak_succ, if_pos hcounts]
    · exact decide_eq_false (Nat.not_le.mpr hfew)

theorem step_success (hw : Running health probes k w)
    (hp : probes[k]? = some p) (hok : p.ok = true)
    (hrestart : restart = true → w.seenHealthy = true) :
    Running health probes (k + 1)
      (w.probe health restart p.elapsed p.ok) := by
  have hcounts : ¬counts health probes k = true := by
    rw [counts_success hp hok]
    exact Bool.false_ne_true
  have hstreak : 0 = streak (counts health probes) (List.range (k + 1)) := by
    rw [hw.streak_succ, if_neg hcounts]
  have hfew : 0 < health.failures := Nat.zero_lt_of_lt hw.failed_lt
  have hany := any_take_succ hp
  rw [hok, Bool.or_true] at hany
  rw [Watch.probe, if_neg hw.not_fatal, hok, if_pos rfl]
  split
  · rename_i hseen
    exact ⟨hseen.trans hany.symm, hw.healthy, hstreak, hfew, hw.replace,
      hw.fatal⟩
  · rename_i hseen
    rw [if_neg fun h => hseen (hrestart h)]
    exact ⟨hany.symm, rfl, hstreak, hfew, hw.replace, hw.fatal⟩

/-- A probe that does not stop the watcher keeps the counter and the flags in
step with the history. -/
theorem step (hw : Running health probes k w) (hp : probes[k]? = some p)
    (hordered : Ordered probes) (hgoes : ¬StopsAt health restart probes k) :
    Running health probes (k + 1)
      (w.probe health restart p.elapsed p.ok) := by
  rw [StopsAt, not_or, succeeded_eq hp] at hgoes
  obtain ⟨hhang, hrestart⟩ := hgoes
  rcases hok : p.ok with _ | _
  · rw [← hok]
    exact hw.step_failure hp hordered hok hhang
  · rw [← hok]
    refine hw.step_success hp hok fun h => ?_
    exact absurd ⟨h, hok⟩ hrestart

/-- What the watcher leaves behind when it stops: a child that is to be
replaced at its first answer is asked to be, a hung one is not. -/
theorem stop (hw : Running health probes k w) (hp : probes[k]? = some p)
    (hfirst : restart = true → w.seenHealthy = false)
    (hstops : StopsAt health restart probes k) :
    (w.probe health restart p.elapsed p.ok).fatal = true ∧
      (w.probe health restart p.elapsed p.ok).replace = p.ok ∧
      (w.probe health restart p.elapsed p.ok).healthy =
        (probes.take (k + 1)).any fun p => p.ok := by
  rw [StopsAt, hw.hangAt_iff, succeeded_eq hp] at hstops
  rw [Watch.probe, if_neg hw.not_fatal, any_take_succ hp, ← hw.seenHealthy]
  rcases hok : p.ok with _ | _
  · rw [hok] at hstops
    obtain ⟨hcounts, hmany⟩ | ⟨-, hfalse⟩ := hstops
    · have hgrace := (hw.counts_failure hp hok).mp hcounts
      rw [if_neg Bool.false_ne_true, if_neg hgrace, Bool.or_false]
      exact ⟨decide_eq_true hmany, hw.replace, hw.healthy⟩
    · exact absurd hfalse Bool.false_ne_true
  · obtain ⟨hcounts, -⟩ | ⟨hrestart, -⟩ := hstops
    · rw [counts_success hp hok] at hcounts
      exact absurd hcounts Bool.false_ne_true
    · have hseen : ¬w.seenHealthy = true := by
        rw [hfirst hrestart]
        exact Bool.false_ne_true
      rw [if_pos rfl, if_neg hseen, if_pos hrestart, Bool.or_true]
      exact ⟨rfl, rfl, rfl⟩

end Running

/-- The watcher ends the run at the probe `k`, and `how` is what the supervisor
reads off it. -/
def EndsAt (health : Health) (restartWhenHealthy : Bool) (probes : List Probe)
    (how : Ended) (k : Nat) : Prop :=
  (watch health restartWhenHealthy (probes.take k)).fatal = false ∧
    (watch health restartWhenHealthy (probes.take (k + 1))).fatal = true ∧
    (watch health restartWhenHealthy (probes.take (k + 1))).ended = how

section Runs

variable {health : Health} {restart : Bool} {probes : List Probe}

theorem running_of_no_stop (hfailures : 1 ≤ health.failures)
    (hordered : Ordered probes) (n : Nat) (hn : n ≤ probes.length)
    (hgoes : ∀ i < n, ¬StopsAt health restart probes i) :
    Running health probes n (watch health restart (probes.take n)) := by
  induction n with
  | zero => exact Running.start hfailures
  | succ n ih =>
      have hp : probes[n]? = some probes[n] := List.getElem?_eq_getElem hn
      have hw := ih (Nat.le_of_succ_le hn) fun i hi =>
        hgoes i (Nat.lt_succ_of_lt hi)
      rw [watch_take_succ hp]
      exact hw.step hp hordered (hgoes n (Nat.lt_succ_self n))

theorem length_gt_of_stopsAt (hfailures : 1 ≤ health.failures) {k : Nat}
    (h : StopsAt health restart probes k) : k < probes.length := by
  by_contra hk
  have hnone : probes[k]? = none :=
    List.getElem?_eq_none_iff.mpr (Nat.not_lt.mp hk)
  obtain ⟨-, hlast⟩ | ⟨-, hsucceeded⟩ := h
  · have hcounts := hlast k (by omega) (Nat.le_refl k)
    rw [counts, hnone] at hcounts
    exact Bool.false_ne_true hcounts
  · rw [succeeded, hnone] at hsucceeded
    exact Bool.false_ne_true hsucceeded

theorem stop_first (hfailures : 1 ≤ health.failures)
    (hordered : Ordered probes) {k : Nat}
    (hstops : StopsAt health restart probes k)
    (hgoes : ∀ i < k, ¬StopsAt health restart probes i) :
    (watch health restart (probes.take (k + 1))).fatal = true ∧
      (watch health restart (probes.take (k + 1))).replace =
        succeeded probes k ∧
      (watch health restart (probes.take (k + 1))).healthy =
        (probes.take (k + 1)).any fun p => p.ok := by
  have hk := length_gt_of_stopsAt hfailures hstops
  have hp : probes[k]? = some probes[k] := List.getElem?_eq_getElem hk
  have hw := running_of_no_stop hfailures hordered k (Nat.le_of_lt hk) hgoes
  have hfirst : restart = true →
      (watch health restart (probes.take k)).seenHealthy = false := by
    intro hrestart
    rw [hw.seenHealthy, List.any_eq_false]
    intro q hq hok
    obtain ⟨i, hi, rfl⟩ := List.mem_take_iff_getElem.mp hq
    have hik : i < k := hi.trans_le (Nat.min_le_left _ _)
    refine hgoes i hik (Or.inr ⟨hrestart, ?_⟩)
    rw [succeeded_eq (List.getElem?_eq_getElem _)]
    exact hok
  rw [watch_take_succ hp, succeeded_eq hp]
  exact hw.stop hp hfirst hstops

/-- The first of the stops before `n`, which `n` probes have come past. -/
def FirstStop (health : Health) (restartWhenHealthy : Bool)
    (probes : List Probe) (n k : Nat) : Prop :=
  k < n ∧ StopsAt health restartWhenHealthy probes k ∧
    ∀ i < k, ¬StopsAt health restartWhenHealthy probes i

theorem no_stop_or_first (health : Health) (restart : Bool)
    (probes : List Probe) (n : Nat) :
    (∀ i < n, ¬StopsAt health restart probes i) ∨
      ∃ k, FirstStop health restart probes n k := by
  induction n with
  | zero => exact Or.inl fun i hi => absurd hi (Nat.not_lt_zero i)
  | succ n ih =>
      rcases ih with hgoes | ⟨k, hk, hfirst⟩
      · by_cases hstops : StopsAt health restart probes n
        · exact Or.inr ⟨n, Nat.lt_succ_self n, hstops, hgoes⟩
        · refine Or.inl fun i hi => ?_
          rcases Nat.lt_succ_iff_lt_or_eq.mp hi with hlt | rfl
          · exact hgoes i hlt
          · exact hstops
      · exact Or.inr ⟨k, Nat.lt_succ_of_lt hk, hfirst⟩

theorem FirstStop.unique {n m j k : Nat}
    (hj : FirstStop health restart probes n j)
    (hk : FirstStop health restart probes m k) : j = k := by
  rcases Nat.lt_trichotomy j k with hlt | heq | hlt
  · exact absurd hj.2.1 (hk.2.2 j hlt)
  · exact heq
  · exact absurd hk.2.1 (hj.2.2 k hlt)

theorem flags_of_no_stop (hfailures : 1 ≤ health.failures)
    (hordered : Ordered probes) {n : Nat}
    (hgoes : ∀ i < n, ¬StopsAt health restart probes i) :
    (watch health restart (probes.take n)).fatal = false ∧
      (watch health restart (probes.take n)).replace = false ∧
      (watch health restart (probes.take n)).healthy =
        (probes.take n).any fun p => p.ok := by
  have hw := running_of_no_stop hfailures hordered (min n probes.length)
    (Nat.min_le_right _ _)
    fun i hi => hgoes i (hi.trans_le (Nat.min_le_left _ _))
  rw [← List.take_eq_take_min] at hw
  refine ⟨hw.fatal, hw.replace, ?_⟩
  rw [hw.healthy, hw.seenHealthy, ← List.take_eq_take_min]

theorem flags_of_first (hfailures : 1 ≤ health.failures)
    (hordered : Ordered probes) {n k : Nat}
    (hfirst : FirstStop health restart probes n k) :
    (watch health restart (probes.take n)).fatal = true ∧
      (watch health restart (probes.take n)).replace = succeeded probes k ∧
      (watch health restart (probes.take n)).healthy =
        (probes.take (k + 1)).any fun p => p.ok := by
  obtain ⟨hk, hstops, hgoes⟩ := hfirst
  have hstop := stop_first hfailures hordered hstops hgoes
  rw [watch_frozen hstop.1 hk]
  exact hstop

theorem any_take_iff (n : Nat) :
    ((probes.take n).any fun p => p.ok) = true ↔
      ∃ j < n, succeeded probes j = true := by
  rw [List.any_eq_true]
  constructor
  · rintro ⟨p, hp, hok⟩
    obtain ⟨j, hj, rfl⟩ := List.mem_take_iff_getElem.mp hp
    refine ⟨j, hj.trans_le (Nat.min_le_left _ _), ?_⟩
    rw [succeeded_eq (List.getElem?_eq_getElem _)]
    exact hok
  · rintro ⟨j, hj, hsucceeded⟩
    obtain ⟨hp, hok⟩ := (Option.any_eq_true_iff_get _ _).mp hsucceeded
    obtain ⟨hlength, heq⟩ :=
      List.getElem?_eq_some_iff.mp (Option.some_get hp).symm
    refine ⟨_, List.mem_take_iff_getElem.mpr ⟨j, ?_, heq⟩, hok⟩
    exact Nat.lt_min.mpr ⟨hj, hlength⟩

theorem healthy_iff (hfailures : 1 ≤ health.failures)
    (hordered : Ordered probes) (n : Nat) :
    (watch health restart (probes.take n)).healthy = true ↔
      ∃ j < n, succeeded probes j = true ∧
        ∀ i < j, ¬StopsAt health restart probes i := by
  rcases no_stop_or_first health restart probes n with hgoes | ⟨k, hfirst⟩
  · rw [(flags_of_no_stop hfailures hordered hgoes).2.2, any_take_iff]
    constructor
    · rintro ⟨j, hj, hsucceeded⟩
      exact ⟨j, hj, hsucceeded, fun i hi => hgoes i (hi.trans hj)⟩
    · rintro ⟨j, hj, hsucceeded, -⟩
      exact ⟨j, hj, hsucceeded⟩
  · rw [(flags_of_first hfailures hordered hfirst).2.2, any_take_iff]
    obtain ⟨hk, hstops, hgoes⟩ := hfirst
    constructor
    · rintro ⟨j, hj, hsucceeded⟩
      exact ⟨j, by omega, hsucceeded, fun i hi => hgoes i (by omega)⟩
    · rintro ⟨j, hj, hsucceeded, hbefore⟩
      refine ⟨j, Nat.lt_succ_of_le (Nat.not_lt.mp fun hkj => ?_), hsucceeded⟩
      exact hbefore k hkj hstops

theorem replace_iff (hfailures : 1 ≤ health.failures)
    (hordered : Ordered probes) (n : Nat) :
    (watch health restart (probes.take n)).replace = true ↔
      ∃ k, FirstStop health restart probes n k ∧
        succeeded probes k = true := by
  rcases no_stop_or_first health restart probes n with hgoes | ⟨k, hfirst⟩
  · rw [(flags_of_no_stop hfailures hordered hgoes).2.1]
    refine iff_of_false Bool.false_ne_true ?_
    rintro ⟨k, ⟨hk, hstops, -⟩, -⟩
    exact hgoes k hk hstops
  · rw [(flags_of_first hfailures hordered hfirst).2.1]
    constructor
    · intro hsucceeded
      exact ⟨k, hfirst, hsucceeded⟩
    · rintro ⟨j, hother, hsucceeded⟩
      rw [hfirst.unique hother]
      exact hsucceeded

theorem succeeded_of_hangAt (hfailures : 1 ≤ health.failures) {k : Nat}
    (h : HangAt health probes k) : succeeded probes k = false := by
  have hstops : StopsAt health false probes k := Or.inl h
  have hk := length_gt_of_stopsAt hfailures hstops
  have hp : probes[k]? = some probes[k] := List.getElem?_eq_getElem hk
  have hcounts := h.2 k (by omega) (Nat.le_refl k)
  rw [succeeded_eq hp]
  rw [counts_eq hp, Bool.and_eq_true] at hcounts
  exact Bool.not_eq_true' _ ▸ hcounts.1

theorem fatal_eq_false_iff (hfailures : 1 ≤ health.failures)
    (hordered : Ordered probes) (n : Nat) :
    (watch health restart (probes.take n)).fatal = false ↔
      ∀ i < n, ¬StopsAt health restart probes i := by
  rcases no_stop_or_first health restart probes n with hgoes | ⟨k, hfirst⟩
  · exact iff_of_true (flags_of_no_stop hfailures hordered hgoes).1 hgoes
  · rw [(flags_of_first hfailures hordered hfirst).1]
    exact iff_of_false Bool.false_ne_true.symm fun hgoes =>
      hgoes k hfirst.1 hfirst.2.1

theorem becomes_fatal_iff (hfailures : 1 ≤ health.failures)
    (hordered : Ordered probes) (k : Nat) :
    ((watch health restart (probes.take k)).fatal = false ∧
        (watch health restart (probes.take (k + 1))).fatal = true) ↔
      FirstStop health restart probes (k + 1) k := by
  rw [fatal_eq_false_iff hfailures hordered]
  constructor
  · rintro ⟨hgoes, hafter⟩
    rcases no_stop_or_first health restart probes (k + 1) with
      hnone | ⟨j, hfirst⟩
    · rw [(flags_of_no_stop hfailures hordered hnone).1] at hafter
      exact absurd hafter Bool.false_ne_true
    · have hjk : ¬j < k := fun hlt => hgoes j hlt hfirst.2.1
      obtain rfl : j = k :=
        Nat.le_antisymm (Nat.le_of_lt_succ hfirst.1) (Nat.not_lt.mp hjk)
      exact hfirst
  · intro hfirst
    exact ⟨hfirst.2.2, (flags_of_first hfailures hordered hfirst).1⟩

/-- A run ends as hung at the first hang, unless the child answered and was to
be replaced. -/
theorem endsAt_hung_iff (hfailures : 1 ≤ health.failures)
    (hordered : Ordered probes) (k : Nat) :
    EndsAt health restart probes .hung k ↔
      HangAt health probes k ∧ ∀ j < k, ¬StopsAt health restart probes j := by
  have hended : ∀ w : Watch, w.ended = .hung ↔ w.replace = false := by
    intro w
    rw [Watch.ended]
    rcases w.replace with _ | _
    · exact iff_of_true rfl rfl
    · exact iff_of_false Ended.noConfusion Bool.noConfusion
  rw [EndsAt, hended, ← and_assoc, becomes_fatal_iff hfailures hordered]
  constructor
  · rintro ⟨hfirst, hreplace⟩
    rw [(flags_of_first hfailures hordered hfirst).2.1] at hreplace
    refine ⟨?_, hfirst.2.2⟩
    rcases hfirst.2.1 with hhang | ⟨-, hsucceeded⟩
    · exact hhang
    · rw [hreplace] at hsucceeded
      exact absurd hsucceeded Bool.false_ne_true
  · rintro ⟨hhang, hgoes⟩
    have hfirst : FirstStop health restart probes (k + 1) k :=
      ⟨Nat.lt_succ_self k, Or.inl hhang, hgoes⟩
    refine ⟨hfirst, ?_⟩
    rw [(flags_of_first hfailures hordered hfirst).2.1]
    exact succeeded_of_hangAt hfailures hhang

theorem not_stopsAt_false_iff (k : Nat) :
    ¬StopsAt health false probes k ↔ ¬HangAt health probes k := by
  rw [StopsAt, not_or, and_iff_left]
  exact fun h => Bool.false_ne_true h.1

theorem not_stopsAt_true_iff (k : Nat) :
    ¬StopsAt health true probes k ↔
      succeeded probes k = false ∧ ¬HangAt health probes k := by
  rw [StopsAt, not_or, and_iff_right rfl, Bool.not_eq_true, and_comm]

end Runs

/-- The watcher declares the child hung at the first hang of the history, says
that it was healthy as soon as a probe succeeded, and asks for the replacement
at the first success, unless the child hung before. -/
theorem watch_fires_exactly (health : Health) (hfailures : 1 ≤ health.failures)
    (probes : List Probe) (hordered : Ordered probes) :
    (∀ k, EndsAt health false probes .hung k ↔
      HangAt health probes k ∧ ∀ j < k, ¬HangAt health probes j) ∧
    (∀ restart n, (watch health restart (probes.take n)).healthy = true ↔
      ∃ j < n, succeeded probes j = true ∧
        ∀ i < j, ¬StopsAt health restart probes i) ∧
    (∀ n, (watch health true (probes.take n)).replace = true ↔
      ∃ k < n, succeeded probes k = true ∧
        ∀ j < k, succeeded probes j = false ∧ ¬HangAt health probes j) ∧
    (∀ k, EndsAt health true probes .hung k ↔
      HangAt health probes k ∧
        ∀ j < k, succeeded probes j = false ∧ ¬HangAt health probes j) := by
  refine ⟨?_, ?_, ?_, ?_⟩
  · intro k
    simp only [endsAt_hung_iff hfailures hordered, not_stopsAt_false_iff]
  · intro restart n
    exact healthy_iff hfailures hordered n
  · intro n
    rw [replace_iff hfailures hordered]
    refine exists_congr fun k => ?_
    simp only [FirstStop, not_stopsAt_true_iff]
    constructor
    · rintro ⟨⟨hk, -, hgoes⟩, hsucceeded⟩
      exact ⟨hk, hsucceeded, hgoes⟩
    · rintro ⟨hk, hsucceeded, hgoes⟩
      exact ⟨⟨hk, Or.inr ⟨rfl, hsucceeded⟩, hgoes⟩, hsucceeded⟩
  · intro k
    simp only [endsAt_hung_iff hfailures hordered, not_stopsAt_true_iff]

theorem watch_fires_exactly_after_answer :
    EndsAt ⟨"http://127.0.0.1:8080/health", secs 300, secs 15, secs 5, 2⟩ false
      [⟨false, secs 1⟩, ⟨true, secs 2⟩, ⟨false, secs 17⟩, ⟨false, secs 32⟩]
      .hung 3 := by
  have hfires := watch_fires_exactly
    ⟨"http://127.0.0.1:8080/health", secs 300, secs 15, secs 5, 2⟩ (by decide)
    [⟨false, secs 1⟩, ⟨true, secs 2⟩, ⟨false, secs 17⟩, ⟨false, secs 32⟩]
    (by unfold Ordered; decide)
  rw [hfires.1 3]
  refine ⟨⟨by decide, ?_⟩, ?_⟩
  · intro i hi hi'
    obtain rfl | rfl : i = 2 ∨ i = 3 := by
      have hi : 2 ≤ i := hi
      omega
    · rfl
    · rfl
  · intro j hj hhang
    have hcounts := hhang.2 j (by simp only; omega) (Nat.le_refl j)
    obtain rfl | rfl | rfl : j = 0 ∨ j = 1 ∨ j = 2 := by omega
    · cases hcounts
    · cases hcounts
    · have hone := hhang.2 1 (Nat.le_refl 1) (by omega)
      cases hone

end AssistantHub.WatchdogRuns
