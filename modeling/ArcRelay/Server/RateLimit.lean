import Mathlib.Algebra.Order.Field.Rat
import Mathlib.Algebra.Order.Group.MinMax
import Mathlib.Data.List.Basic
import Mathlib.Tactic.Linarith
import Mathlib.Tactic.Positivity

/-!
# The rate limit of the API

Every user has a bucket that fills as time passes, up to `burst`, and each request takes a token
(`internal/server/ratelimit.go`).  A bucket that was not used for ten minutes is removed, and the
next one of the user starts full.  Times are in seconds, and exact.

If a bucket fills within ten minutes, nobody notices that it was removed: the decisions on one
user are those of a bucket that is kept (`decisions_eq`), so the others do not matter, and at
most `burst + rate * T` requests pass in `T` seconds (`requests_limited`).  Who never makes more
than that is never refused (`requests_admitted_iff`).
-/

namespace ArcRelay.RateLimit

open List

structure RateBucket where
  tokens : ℚ
  lastFill : ℚ

structure RateLimiter where
  rate : ℚ
  burst : ℕ

abbrev Buckets := String → Option RateBucket

inductive Event where
  /-- A request, with the user if one is known; without one the middleware lets it pass. -/
  | request (user : Option String) (now : ℚ)
  | cleanup (now : ℚ)

def Event.time : Event → ℚ
  | .request _ now | .cleanup now => now

def Event.isBy (user : String) : Event → Bool
  | .request u _ => u = some user
  | .cleanup _ => false

variable (rl : RateLimiter)

def RateBucket.take (b : RateBucket) (now : ℚ) : RateBucket × Bool :=
  let tokens := min (b.tokens + (now - b.lastFill) * rl.rate) rl.burst
  if tokens < 1 then (⟨tokens, now⟩, false) else (⟨tokens - 1, now⟩, true)

def allow (bs : Buckets) (key : String) (now : ℚ) : Buckets × Bool :=
  let r := ((bs key).getD ⟨rl.burst, now⟩).take rl now
  (fun k => if k = key then some r.1 else bs k, r.2)

def RateBucket.stale (b : RateBucket) (now : ℚ) : Bool := b.lastFill < now - 10 * 60

def cleanup (bs : Buckets) (now : ℚ) : Buckets := fun key => (bs key).filter fun b => !b.stale now

/-- What is decided on the requests of one user among others. -/
def decisions (user : String) : Buckets → List Event → List (ℚ × Bool)
  | _, [] => []
  | bs, .request none _ :: es => decisions user bs es
  | bs, .request (some u) now :: es =>
    let r := allow rl bs u now
    if u = user then (now, r.2) :: decisions user r.1 es else decisions user r.1 es
  | bs, .cleanup now :: es => decisions user (cleanup bs now) es

def bucketRun : RateBucket → List ℚ → List (ℚ × Bool)
  | _, [] => []
  | b, now :: ts => (now, (b.take rl now).2) :: bucketRun (b.take rl now).1 ts

def passed (t e : ℚ) (ds : List (ℚ × Bool)) : ℕ := ds.countP fun d => d.2 && t ≤ d.1 && d.1 ≤ e

/-- What is kept of a bucket stands for it: it is the bucket, or nothing if the bucket is full. -/
def StandsFor (now : ℚ) (kept : Option RateBucket) (b : RateBucket) : Prop :=
  kept = some b ∨ kept = none ∧ rl.burst ≤ b.tokens + (now - b.lastFill) * rl.rate

variable {rl} {now t e : ℚ} {b : RateBucket} {kept : Option RateBucket} {ts : List ℚ}

theorem take_lastFill : (b.take rl now).1.lastFill = now := by
  unfold RateBucket.take
  dsimp only
  split <;> rfl

theorem StandsFor.take (h : StandsFor rl now kept b) :
    (kept.getD ⟨rl.burst, now⟩).take rl now = b.take rl now := by
  rcases h with rfl | ⟨rfl, hfull⟩
  · rfl
  · simp [RateBucket.take, min_eq_right hfull]

theorem passed_of_late (h : e < now) (hts : (now :: ts).Pairwise (· ≤ ·)) :
    passed t e (bucketRun rl b (now :: ts)) = 0 := by
  induction ts generalizing b now with
  | nil => simp [bucketRun, passed, h]
  | cons now' ts ih => ?_
  obtain ⟨hle, hts⟩ := pairwise_cons.mp hts
  rw [bucketRun, passed, countP_cons_of_neg (by simp [h])]
  exact ih (h.trans_le (hle now' mem_cons_self)) hts

theorem passed_cons : (passed t e (bucketRun rl b (now :: ts)) : ℚ) ≤
    passed t e (bucketRun rl (b.take rl now).1 ts) + (b.take rl now).2.toNat := by
  rw [bucketRun, passed, countP_cons, passed]
  cases (b.take rl now).2 with
  | false => simp
  | true =>
    push_cast
    gcongr
    split <;> simp

section

variable (hburst : 1 ≤ rl.burst) (hrate : 0 < rl.rate)

include hrate

theorem StandsFor.later (h : StandsFor rl now kept b) (hle : now ≤ t) : StandsFor rl t kept b := by
  refine h.imp_right fun ⟨hnone, hfull⟩ => ⟨hnone, hfull.trans ?_⟩
  gcongr

/-- What is removed was full: ten minutes are enough to fill it. -/
theorem StandsFor.cleanup (h : StandsFor rl now kept b) (hb : 0 ≤ b.tokens)
    (hfill : rl.burst ≤ 600 * rl.rate) :
    StandsFor rl now (kept.filter fun b => !b.stale now) b := by
  rcases h with rfl | ⟨rfl, hfull⟩
  · cases hstale : b.stale now with
    | false => exact .inl (by simp [hstale])
    | true => ?_
    have hold : b.lastFill < now - 10 * 60 := of_decide_eq_true hstale
    have hmul : 600 * rl.rate ≤ (now - b.lastFill) * rl.rate := by
      gcongr
      linarith
    exact .inr ⟨by simp [hstale], by linarith⟩
  · exact .inr ⟨rfl, hfull⟩

include hburst

theorem take_spec (hb : 0 ≤ b.tokens) (hnow : b.lastFill ≤ now) :
    0 ≤ (b.take rl now).1.tokens ∧
      (b.take rl now).1.tokens + (b.take rl now).2.toNat ≤ rl.burst ∧
      (b.take rl now).1.tokens + (b.take rl now).2.toNat ≤
        b.tokens + (now - b.lastFill) * rl.rate := by
  have hburst' : (1 : ℚ) ≤ rl.burst := by exact_mod_cast hburst
  have hgain : 0 ≤ (now - b.lastFill) * rl.rate := mul_nonneg (sub_nonneg.mpr hnow) hrate.le
  unfold RateBucket.take
  dsimp only
  generalize (now - b.lastFill) * rl.rate = gain at hgain ⊢
  have hpos : 0 ≤ min (b.tokens + gain) (rl.burst : ℚ) := le_min (by linarith) (by linarith)
  split
  · simp [hpos]
  · next hge => simp [not_lt.mp hge]

/-- **The decisions on a user are those of a bucket that is kept.** -/
theorem decisions_eq (hfill : rl.burst ≤ 600 * rl.rate) (user : String) {es : List Event}
    {bs : Buckets} (hs : StandsFor rl now (bs user) b) (hb : 0 ≤ b.tokens)
    (hlast : b.lastFill ≤ now) (hes : (now :: es.map Event.time).Pairwise (· ≤ ·)) :
    decisions rl user bs es = bucketRun rl b ((es.filter (·.isBy user)).map Event.time) := by
  induction es generalizing bs b now with
  | nil => rfl
  | cons ev es ih => ?_
  obtain ⟨hnow, hes⟩ := pairwise_cons.mp hes
  have hlast := hlast.trans (hnow ev.time mem_cons_self)
  have hs := hs.later hrate (hnow ev.time mem_cons_self)
  cases ev with
  | cleanup t => exact ih (hs.cleanup hrate hb hfill) hb hlast hes
  | request u t => ?_
  cases u with
  | none => exact ih hs hb hlast hes
  | some u => ?_
  by_cases hu : u = user
  · subst hu
    obtain ⟨htokens, -⟩ := take_spec hburst hrate hb hlast
    have htake : RateBucket.take rl ((bs u).getD ⟨rl.burst, t⟩) t = b.take rl t := hs.take
    rw [filter_cons_of_pos (by simp [Event.isBy]), map_cons, bucketRun, Event.time, decisions,
      if_pos rfl, allow, htake, ih (.inl (if_pos rfl)) htokens take_lastFill.le hes]
    rfl
  · have hother : (allow rl bs u t).1 user = bs user := if_neg (Ne.symm hu)
    rw [filter_cons_of_neg (by simp [Event.isBy, hu]), decisions, if_neg hu]
    exact ih (hother ▸ hs) hb hlast hes

/-- What passes in a window: what the bucket has and what comes in, or, if the window is still to
come, what it can have and what comes in meanwhile. -/
theorem passed_le (hb : 0 ≤ b.tokens) (hts : (b.lastFill :: ts).Pairwise (· ≤ ·)) (hte : t ≤ e)
    (he : b.lastFill ≤ e) : passed t e (bucketRun rl b ts) ≤
      if b.lastFill < t then rl.burst + (e - t) * rl.rate
      else b.tokens + (e - b.lastFill) * rl.rate := by
  have hgain : ∀ x y, x ≤ y → 0 ≤ (y - x) * rl.rate := fun x y hxy =>
    mul_nonneg (sub_nonneg.mpr hxy) hrate.le
  have hpos : ∀ b : RateBucket, 0 ≤ b.tokens → b.lastFill ≤ e → (0 : ℚ) ≤
      if b.lastFill < t then rl.burst + (e - t) * rl.rate
      else b.tokens + (e - b.lastFill) * rl.rate := by
    intro b hb he
    split
    · exact add_nonneg (Nat.cast_nonneg _) (hgain t e hte)
    · exact add_nonneg hb (hgain _ e he)
  induction ts generalizing b with
  | nil => simpa [bucketRun, passed] using hpos b hb he
  | cons now ts ih => ?_
  obtain ⟨hle, hts⟩ := pairwise_cons.mp hts
  have hnow := hle now mem_cons_self
  rcases lt_or_ge e now with hlate | hin
  · rw [passed_of_late hlate hts]
    exact_mod_cast hpos b hb he
  obtain ⟨htokens, hcap, hspent⟩ := take_spec hburst hrate hb hnow
  have hrest := ih htokens (by rwa [take_lastFill]) (by rwa [take_lastFill])
  rw [take_lastFill] at hrest
  rcases lt_or_ge now t with hearly | hge
  · -- the window is still to come
    have hskip : passed t e (bucketRun rl b (now :: ts)) =
        passed t e (bucketRun rl (b.take rl now).1 ts) := countP_cons_of_neg (by simp [hearly])
    rw [hskip, if_pos (hnow.trans_lt hearly)]
    rwa [if_pos hearly] at hrest
  rw [if_neg (not_lt.mpr hge)] at hrest
  refine passed_cons.trans ?_
  split
  · have := hgain t now hge
    linarith
  · linarith

end

/-- **The limit holds for every user, whatever the others do**: at most `burst + rate * T`
requests of a user pass in `T` seconds, and what is decided on them is what would be without the
other requests and without the removal of buckets. -/
theorem requests_limited (hburst : 1 ≤ rl.burst) (hrate : 0 < rl.rate)
    (hfill : rl.burst ≤ 600 * rl.rate) (user : String) (t₀ : ℚ) (es : List Event)
    (hes : (t₀ :: es.map Event.time).Pairwise (· ≤ ·)) :
    (∀ t T, 0 ≤ T → passed t (t + T) (decisions rl user (fun _ => none) es) ≤
        rl.burst + rl.rate * T) ∧
      decisions rl user (fun _ => none) es =
        decisions rl user (fun _ => none) (es.filter (·.isBy user)) := by
  -- the bucket that is kept may have been filled at any time before
  have hkept : ∀ es : List Event, (t₀ :: es.map Event.time).Pairwise (· ≤ ·) → ∀ t,
      (min t₀ t :: es.map Event.time).Pairwise (· ≤ ·) ∧ decisions rl user (fun _ => none) es =
        bucketRun rl ⟨rl.burst, min t₀ t⟩ ((es.filter (·.isBy user)).map Event.time) := by
    intro es hes t
    obtain ⟨hstart, hes⟩ := pairwise_cons.mp hes
    have hes : (min t₀ t :: es.map Event.time).Pairwise (· ≤ ·) :=
      pairwise_cons.mpr ⟨fun x hx => (min_le_left _ _).trans (hstart x hx), hes⟩
    exact ⟨hes, decisions_eq hburst hrate hfill user (.inr ⟨rfl, by simp⟩) (Nat.cast_nonneg _)
      le_rfl hes⟩
  have hown : es.filter (·.isBy user) <+ es := filter_sublist
  refine ⟨fun t T hT => ?_, ?_⟩
  · obtain ⟨hes, hdec⟩ := hkept es hes t
    have hle := passed_le (b := ⟨rl.burst, min t₀ t⟩) (t := t) (e := t + T) hburst hrate
      (Nat.cast_nonneg _) (hes.sublist ((hown.map _).cons_cons _)) (by linarith)
      ((min_le_right _ _).trans (by linarith))
    rw [hdec]
    refine hle.trans ?_
    split
    · linarith
    · next hge =>
      rw [min_eq_right (by simpa using hge)]
      linarith
  · rw [(hkept es hes 0).2, (hkept _ (hes.sublist ((hown.map _).cons_cons _)) 0).2, filter_filter]
    simp

theorem requests_limited_server :
    let es : List Event := [.request (some "u") 0, .cleanup 700, .request (some "u") 700]
    passed 0 (0 + 700) (decisions ⟨100, 200⟩ "u" (fun _ => none) es) ≤
      (200 : ℕ) + 100 * (700 : ℚ) :=
  (requests_limited (by decide) (by norm_num) (by norm_num) "u" 0 _ (by simp [Event.time])).1
    0 700 (by norm_num)

/-! ### Who is never refused -/

/-- Counted from the first one, the requests up to each time `t` are no more than `k` and what comes
in until then. -/
def Fits (rl : RateLimiter) (k start : ℚ) (ts : List ℚ) : Prop :=
  ∀ p t, p ++ [t] <+: ts → p.length + 1 ≤ k + (t - start) * rl.rate

/-- No window that begins with a request holds more of them than the limit. -/
def Conforms (rl : RateLimiter) : List ℚ → Prop
  | [] => True
  | now :: ts => Fits rl rl.burst now (now :: ts) ∧ Conforms rl ts

theorem fits_cons {k start : ℚ} : Fits rl k start (now :: ts) ↔
    1 ≤ k + (now - start) * rl.rate ∧ Fits rl (k + (now - start) * rl.rate - 1) now ts := by
  constructor
  · intro h
    refine ⟨by simpa using h [] now (by simp), fun p t hp => ?_⟩
    have := h (now :: p) t (by simpa using hp)
    push_cast [length_cons] at this
    linarith
  · rintro ⟨hone, h⟩ p t hp
    cases p with
    | nil =>
      obtain rfl : t = now := by simpa using hp
      simpa using hone
    | cons a p =>
      obtain ⟨rfl, hrest⟩ := cons_prefix_cons.mp hp
      have := h p t hrest
      push_cast [length_cons]
      linarith

theorem fits_min {k k' start : ℚ} :
    Fits rl (min k k') start ts ↔ Fits rl k start ts ∧ Fits rl k' start ts := by
  simp only [Fits, min_add, le_min_iff, imp_and, forall_and]

/-- A bucket refuses none if and only if the requests fit what it has, and conform. -/
theorem bucketRun_all : (∀ d ∈ bucketRun rl b ts, d.2 = true) ↔
    Fits rl b.tokens b.lastFill ts ∧ Conforms rl ts := by
  induction ts generalizing b with
  | nil => simp [bucketRun, Fits, Conforms]
  | cons now ts ih => ?_
  rw [bucketRun, forall_mem_cons, ih, Conforms, fits_cons, fits_cons, take_lastFill, sub_self,
    zero_mul, add_zero]
  unfold RateBucket.take
  dsimp only
  split
  · next hlt =>
    have hlt := min_lt_iff.mp hlt
    simp only [Bool.false_eq_true, false_and, false_iff]
    rintro ⟨⟨h, -⟩, ⟨h', -⟩, -⟩
    rcases hlt with hlt | hlt <;> linarith
  · next hge =>
    have hge := le_min_iff.mp (not_lt.mp hge)
    rw [← min_sub_sub_right, fits_min]
    tauto

/-- **A user is never refused if and only if they keep to the limit**: in no window that begins
with one of their requests have they made more than `burst + rate * T`.  What others do, and the
removal of buckets, cost them nothing. -/
theorem requests_admitted_iff (hburst : 1 ≤ rl.burst) (hrate : 0 < rl.rate)
    (hfill : rl.burst ≤ 600 * rl.rate) (user : String) (t₀ : ℚ) (es : List Event)
    (hes : (t₀ :: es.map Event.time).Pairwise (· ≤ ·)) :
    (∀ d ∈ decisions rl user (fun _ => none) es, d.2 = true) ↔
      Conforms rl ((es.filter (·.isBy user)).map Event.time) := by
  have hown := hes.sublist (((filter_sublist (p := (·.isBy user))).map Event.time).cons_cons t₀)
  rw [decisions_eq (b := ⟨rl.burst, t₀⟩) hburst hrate hfill user (.inr ⟨rfl, by simp⟩)
    (Nat.cast_nonneg _) le_rfl hes, bucketRun_all, and_iff_right_iff_imp]
  -- a bucket that is full before the first request has at least what it has then
  generalize (es.filter (·.isBy user)).map Event.time = ts at hown ⊢
  intro h p t hp
  cases ts with
  | nil => simp at hp
  | cons now ts => ?_
  have hle : t₀ ≤ now := (pairwise_cons.mp hown).1 now mem_cons_self
  refine (h.1 p t hp).trans ?_
  gcongr

theorem requests_admitted_iff_two :
    let es : List Event := [.request (some "u") 0, .request (some "v") 0, .request (some "u") 1]
    (∀ d ∈ decisions ⟨1, 1⟩ "u" (fun _ => none) es, d.2 = true) ↔ Conforms ⟨1, 1⟩ [0, 1] :=
  requests_admitted_iff (by decide) (by norm_num) (by norm_num) "u" 0 _ (by simp [Event.time])

end ArcRelay.RateLimit
