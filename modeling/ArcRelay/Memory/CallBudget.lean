import ArcRelay.Lib.Interleave
import ArcRelay.Server.RateLimit

/-!
# The budget of the extractor's calls

Each attempt of a call to the backend waits for a token first
(`internal/memory/extractor/ratelimit.go`).  The bucket refills and is taken from as that of the
API, but it starts empty: its first use only sets the clock.  `Wait` is a loop of `take`s, each
under the lock, and any number of extractions wait at once.  How long one sleeps between two takes
is up to the schedule.

The takes are those of a bucket that was empty at the first one (`Kept`), and every wait that ends
well has a grant of its own.  So no more calls are let through than have accrued since the first
use, in any interleaving (`waits_within_budget`).

* `waits`: callers that share a limiter.
* `waits_within_budget`: the budget of paid calls.
-/

namespace ArcRelay.CallBudget

open Interleave Prog List
open RateLimit hiding Event

/-- Without a limit there is no limiter. -/
def newRateLimiter (callsPerHour burst : ℤ) : Option RateLimiter :=
  if callsPerHour ≤ 0 then none
  else some { rate := callsPerHour / 3600, burst := if burst ≤ 0 then 1 else burst.toNat }

structure State where
  /-- What the limiter has, and since when; nothing until its first use. -/
  bucket : Option RateBucket := none
  /-- Who took, when, and whether a token was there; the newest first. -/
  takes : List (ℕ × ℚ × Bool) := []

structure Env where
  now : ℚ
  ctxErr : Option String := none

abbrev Run := Prog State Env

def State.take (rl : RateLimiter) (s : State) (i : ℕ) (now : ℚ) : State × Bool :=
  let r := (s.bucket.getD ⟨0, now⟩).take rl now
  (⟨some r.1, (i, now, r.2) :: s.takes⟩, r.2)

/-- `Wait` of caller `i`, for so many rounds; `none` if it waits still. -/
def wait (rl : RateLimiter) (i : ℕ) : ℕ → Run (Option (Except String Unit))
  | 0 => pure none
  | rounds + 1 => do
    if ← act fun s e => s.take rl i e.now then pure (some (.ok ()))
    else
      match ← observe (·.ctxErr) with
      | some err => pure (some (.error err))
      | none => wait rl i rounds

/-- Callers that share a limiter, each with the rounds it may wait. -/
def waits (rl : RateLimiter) (rounds : List ℕ) : Pool State Env (Option (Except String Unit)) :=
  ⟨{}, rounds.mapIdx (wait rl)⟩

/-! ### The invariant -/

def State.log (s : State) : List (ℚ × Bool) := (s.takes.map (·.2)).reverse

def State.granted (s : State) : List ℕ := (s.takes.filter (·.2.2)).map (·.1)

def Grows (s s' : State) : Prop := s.granted ⊆ s'.granted

/-- Nothing was taken yet, or the takes are those of a bucket that was empty at the first one. -/
def Kept (rl : RateLimiter) (s : State) : Prop :=
  s.bucket = none ∧ s.takes = [] ∨ ∃ t₁ ts, s.log = bucketRun rl ⟨0, t₁⟩ (t₁ :: ts) ∧
    s.bucket = some ((t₁ :: ts).foldl (fun b now => (b.take rl now).1) ⟨0, t₁⟩)

variable {rl : RateLimiter} {now : ℚ} {s : State} {i : ℕ}

theorem Grows.refl (s : State) : Grows s s := Subset.refl _

theorem bucketRun_concat {b : RateBucket} {ts : List ℚ} :
    bucketRun rl b (ts ++ [now]) = bucketRun rl b ts ++
      [(now, ((ts.foldl (fun b t => (b.take rl t).1) b).take rl now).2)] := by
  induction ts generalizing b with
  | nil => rfl
  | cons t ts ih => exact congrArg ((t, (b.take rl t).2) :: ·) ih

theorem map_bucketRun {b : RateBucket} {ts : List ℚ} : (bucketRun rl b ts).map Prod.fst = ts := by
  induction ts generalizing b with
  | nil => rfl
  | cons t ts ih => exact congrArg (t :: ·) ih

theorem Kept.take (h : Kept rl s) : Kept rl (s.take rl i now).1 := by
  rcases h with ⟨hnone, htakes⟩ | ⟨t₁, ts, hlog, hbucket⟩
  · exact .inr ⟨now, [], by simp [State.take, State.log, hnone, htakes, bucketRun],
      by simp [State.take, hnone]⟩
  · refine .inr ⟨t₁, ts ++ [now], ?_, ?_⟩
    · rw [← cons_append, bucketRun_concat, ← hlog, State.take, hbucket]
      simp [State.log]
    · rw [← cons_append, foldl_concat, State.take, hbucket]
      rfl

/-- A wait that ends well has a grant of its own. -/
theorem wait_safe (n : ℕ) : (wait rl i n).Safe (Kept rl) Grows Grows
    (fun res s => res = some (.ok ()) → i ∈ s.granted) s := by
  induction n generalizing s with
  | zero => exact safe_pure fun _ _ h => nomatch h
  | succ n ih => ?_
  refine safe_act_bind.mpr fun s₁ _ hI e => ⟨hI.take, ?_, ?_⟩
  · exact (((sublist_cons_self _ _).filter _).map _).subset
  split
  · next hok =>
    have hmem : i ∈ (s₁.take rl i e.now).1.granted :=
      mem_map.mpr ⟨_, mem_filter.mpr ⟨mem_cons_self, hok⟩, rfl⟩
    exact safe_pure fun t ht _ => ht hmem
  refine safe_observe_bind Grows.refl fun s₂ _ _ e => ?_
  cases e.ctxErr with
  | some err => exact safe_pure fun _ _ h => nomatch h
  | none => exact ih

theorem waits_safe (rl : RateLimiter) (rounds : List ℕ) (sched : List (Event Empty Env)) :
    ((waits rl rounds).exec (fun h => h.elim) sched).AllSafe (Kept rl) (fun _ => Grows)
      (fun _ => Grows) fun i res s => res = some (.ok ()) → i ∈ s.granted := by
  refine Pool.exec_safe (fun _ => Grows.refl) (fun _ _ _ _ => Subset.trans)
    (fun _ _ _ _ _ _ h => h) (fun h => h.elim) ?_ sched
  exact Pool.allSafe_mapIdx (.inl ⟨rfl, rfl⟩) fun _ n _ => wait_safe n

/-! ### The budget -/

theorem Kept.passed_le (h : Kept rl s) (hburst : 1 ≤ rl.burst) (hrate : 0 < rl.rate)
    (hclock : (s.log.map Prod.fst).Pairwise (· ≤ ·)) {t e : ℚ} (hte : t ≤ e) :
    passed t e s.log ≤ rl.burst + (e - t) * rl.rate ∧
      ((∀ d ∈ s.log, t ≤ d.1) → passed t e s.log ≤ (e - t) * rl.rate) := by
  have hgain : 0 ≤ (e - t) * rl.rate := mul_nonneg (sub_nonneg.mpr hte) hrate.le
  have hnone : passed t e s.log = 0 → (passed t e s.log : ℚ) ≤ (e - t) * rl.rate := by
    intro h
    rwa [h, Nat.cast_zero]
  have hbound : (passed t e s.log : ℚ) ≤ (e - t) * rl.rate ∨
      (∃ d ∈ s.log, d.1 < t) ∧ (passed t e s.log : ℚ) ≤ rl.burst + (e - t) * rl.rate := by
    rcases h with ⟨-, htakes⟩ | ⟨t₁, ts, hlog, -⟩
    · exact .inl (hnone (by simp [State.log, htakes, passed]))
    rw [hlog, map_bucketRun] at hclock
    -- nothing passes in a window before the first take
    rcases lt_or_ge e t₁ with hlate | hin
    · exact .inl (hnone (by rw [hlog, passed_of_late hlate hclock]))
    have hle := RateLimit.passed_le (b := ⟨0, t₁⟩) hburst hrate le_rfl
      (pairwise_cons.mpr ⟨by simpa using (pairwise_cons.mp hclock).1, hclock⟩) hte hin
    rw [hlog]
    by_cases hlt : t₁ < t
    · rw [if_pos hlt] at hle
      exact .inr ⟨⟨_, mem_cons_self, hlt⟩, hle⟩
    · rw [if_neg hlt, zero_add] at hle
      exact .inl (hle.trans (by gcongr; exact not_lt.mp hlt))
  rcases hbound with hle | ⟨⟨d, hd, hlt⟩, hle⟩
  · exact ⟨hle.trans (le_add_of_nonneg_left (Nat.cast_nonneg _)), fun _ => hle⟩
  · exact ⟨hle, fun hall => absurd (hall d hd) (not_le.mpr hlt)⟩

/-- **The budget of paid calls**: however many callers wait at once, as long as the clock does not
go back, the limiter grants at most `burst` and what accrues in any time, and all that were let
through so far are at most what accrued since it was first used: a restart grants no burst. -/
theorem waits_within_budget (callsPerHour burst : ℤ)
    (hrl : newRateLimiter callsPerHour burst = some rl) (rounds : List ℕ)
    (sched : List (Event Empty Env)) :
    let P := (waits rl rounds).exec (fun h => h.elim) sched
    (P.state.log.map Prod.fst).Pairwise (· ≤ ·) → ∀ t T, 0 ≤ T →
      passed t (t + T) P.state.log ≤ rl.burst + T * (callsPerHour / 3600) ∧
      ((∀ d ∈ P.state.log, t ≤ d.1 ∧ d.1 ≤ t + T) →
        ((range rounds.length).countP fun i => P.result i = some (some (.ok ()))) ≤
          T * (callsPerHour / 3600 : ℚ)) := by
  intro P hclock t T hT
  have hsafe := waits_safe rl rounds sched
  obtain ⟨hburst, hrate, hpos⟩ :
      1 ≤ rl.burst ∧ rl.rate = callsPerHour / 3600 ∧ 0 < rl.rate := by
    unfold newRateLimiter at hrl
    split at hrl
    · cases hrl
    next hcalls =>
    cases hrl
    have : (0 : ℚ) < callsPerHour := by exact_mod_cast not_le.mp hcalls
    refine ⟨?_, rfl, by positivity⟩
    dsimp only
    split <;> omega
  obtain ⟨hwindow, hfirst⟩ :=
    hsafe.inv.passed_le hburst hpos hclock (le_add_of_nonneg_right hT : t ≤ t + T)
  rw [add_sub_cancel_left] at hwindow hfirst
  rw [← hrate]
  refine ⟨hwindow, fun hall => le_trans ?_ (hfirst fun d hd => (hall d hd).1)⟩
  -- different callers have different grants
  have hsub : (range rounds.length).filter (fun i => P.result i = some (some (.ok ()))) <+~
      P.state.granted := by
    refine subperm_of_subset (nodup_range.filter _) fun i hi => ?_
    exact hsafe.post (fun _ => Grows.refl) (of_decide_eq_true (mem_filter.mp hi).2) rfl
  have hgrants : P.state.granted.length = passed t (t + T) P.state.log := by
    rw [State.granted, length_map, ← countP_eq_length_filter, State.log, passed, countP_reverse,
      countP_map]
    refine countP_congr fun d hd => ?_
    have := hall d.2 (mem_reverse.mpr (mem_map_of_mem hd))
    simp [this]
  rw [countP_eq_length_filter, ← hgrants]
  exact_mod_cast hsub.length_le

/-- Two callers, one call an hour: one is let through, an hour after the first take. -/
theorem waits_within_budget_two :
    let P := (waits ⟨(1 : ℤ) / 3600, 1⟩ [2, 1]).exec (fun h : Empty => h.elim)
      [.run 0 { now := 0 }, .run 1 { now := 5 }, .run 0 { now := 6 }, .run 0 { now := 3600 }]
    P.result 0 = some (some (.ok ())) ∧
      (((range 2).countP fun i => P.result i = some (some (.ok ()))) : ℚ) ≤
        3600 * ((1 : ℤ) / 3600) := by
  refine ⟨by decide +kernel, ?_⟩
  exact (waits_within_budget 1 1 rfl [2, 1] _ (by decide +kernel) 0 3600 (by norm_num)).2
    (by decide +kernel)

end ArcRelay.CallBudget
