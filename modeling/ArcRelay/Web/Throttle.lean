import ArcRelay.Lib.History
import ArcRelay.Lib.Interleave
import ArcRelay.Web.LocalRedirects
import Mathlib.Data.List.Perm.Subperm
import Mathlib.Data.Int.Order.Basic

/-!
# Throttling of logins

The web interface counts failed logins by client (`ipRateLimiter` and `handleLogin` in
`internal/web/handlers.go`).  A login is let through if fewer than `max` failures of the client lie
within the last `window`; then the password is verified; and if that fails, the failure is recorded.
The check and the recording are critical sections of their own, and the client is whoever the
header `X-Forwarded-For` names, if there is one.

* `handleLogin`, `history`: the handler, and the history of many of them.
* `InTurn`: the logins of a peer take turns.
* `failures_bounded`, `failures_unbounded`: the bound, and six failures where five are allowed.
-/

namespace ArcRelay.Throttle

open Interleave Prog History List

/-! ### The limiter -/

/-- A login request.  The peer is the host of `RemoteAddr`. -/
structure Request where
  peer : String
  forwardedFor : String := ""
  method : String := "POST"
  username : String := ""
  password : String := ""
  next : String := ""

/-- `clientIP`: what the header says comes first. -/
def clientIP (r : Request) : String :=
  if r.forwardedFor ≠ "" then String.ofList (r.forwardedFor.toList.takeWhile (· ≠ ','))
  else r.peer

/-- What happened, for the specification only; the number is that of the request. -/
inductive Entry where
  | checked (i : ℕ) (peer key : String) (now : ℤ) (ok : Bool)
  | verified (i : ℕ) (peer : String) (now : ℤ) (ok : Bool)
  | recorded (i : ℕ) (key : String) (now : ℤ)
  | swept (now : ℤ)
  deriving DecidableEq

/-- The request an entry is about. -/
def Entry.owner : Entry → Option ℕ
  | .checked i _ _ _ _ => some i
  | .verified i _ _ _ => some i
  | .recorded i _ _ => some i
  | .swept _ => none

/-- The time of an entry. -/
def Entry.now : Entry → ℤ
  | .checked _ _ _ now _ => now
  | .verified _ _ now _ => now
  | .recorded _ _ now => now
  | .swept now => now

/-- The limiter, with the history of what was done. -/
structure State where
  /-- The failures of each client; there are none where the map has no entry. -/
  attempts : String → List ℤ := fun _ => []
  log : List Entry := []

/-- What a step finds: the clock, the outcome of the password check, errors. -/
structure Env where
  now : ℤ := 0
  authenticated : Bool := false
  idErr : Option String := none
  storeErr : Option String := none
  mustChangePassword : Bool := false

/-- A handler over the limiter. -/
abbrev Run := Prog State Env

section

variable (max : ℕ) (window : ℤ) (i : ℕ)

/-- The times within the window. -/
def recent (now : ℤ) (times : List ℤ) : List ℤ := times.filter fun t => now - window < t

/-- Failures that have left the window are forgotten. -/
def State.trim (s : State) (key : String) (now : ℤ) : State :=
  { s with attempts := fun k =>
      if k = key then recent window now (s.attempts k) else s.attempts k }

/-- `ipRateLimiter.allow`. -/
def allow (peer key : String) : Run Bool :=
  act fun s e =>
    let ok := decide ((recent window e.now (s.attempts key)).length < max)
    ({ s.trim window key e.now with log := .checked i peer key e.now ok :: s.log }, ok)

/-- `ipRateLimiter.record`. -/
def record (key : String) : Run Unit :=
  act fun s e =>
    ({ attempts := fun k => if k = key then s.attempts k ++ [e.now] else s.attempts k
       log := .recorded i key e.now :: s.log }, ())

/-- `Authenticate`. -/
def authenticate (r : Request) : Run Bool :=
  act fun s e =>
    ({ s with log := .verified i r.peer e.now e.authenticated :: s.log }, e.authenticated)

/-- The answers to a login. -/
inductive Outcome where
  | login (message next : String)
  | internalError
  | redirect (target : String)

/-- Only a path on this host is followed. -/
def localTarget (next : String) : String :=
  if Web.LocalRedirects.isLocal (Json.utf8 next) then next else "/"

/-- A session after a login, with the errors on the way. -/
def openSession (r : Request) : Run Outcome := do
  match ← observe Env.idErr with
  | some _ => pure .internalError
  | none =>
    match ← observe Env.storeErr with
    | some _ => pure .internalError
    | none =>
      if ← observe Env.mustChangePassword then pure (.redirect "/account/password")
      else pure (.redirect (localTarget r.next))

/-- `handleLogin`. -/
def handleLogin (r : Request) : Run Outcome :=
  if r.method = "GET" then pure (.login "" r.next)
  else do
    if ← allow max window i r.peer (clientIP r) then
      if ← authenticate i r then openSession r
      else
        record i (clientIP r)
        pure (.login "Invalid username or password" r.next)
    else pure (.login "Too many login attempts. Please try again later." "")

/-- `cleanup`, one tick of it. -/
def sweep (now : ℤ) (s : State) : State where
  attempts := fun k => recent window now (s.attempts k)
  log := .swept now :: s.log

/-- The logins in parallel. -/
def logins (reqs : List Request) : Pool State Env Outcome :=
  ⟨{}, reqs.mapIdx fun i r => handleLogin max window i r⟩

/-- The history of a run, the last entry first. -/
def history (reqs : List Request) (sched : List (Event ℤ Env)) : List Entry :=
  ((logins max window reqs).exec (sweep window) sched).state.log

end

/-! ### The specification -/

/-- A password of this peer was refused between the two times. -/
def Entry.isFailure (peer : String) (since til : ℤ) : Entry → Bool
  | .verified _ p now ok => p = peer && !ok && since ≤ now && now < til
  | _ => false

/-- The verifications for a peer that failed, from one time until before another. -/
def failures (peer : String) (since til : ℤ) (log : List Entry) : List Entry :=
  log.filter (Entry.isFailure peer since til)

/-- The password of the login was right, or the failure is recorded. -/
def Answered (i : ℕ) (log : List Entry) : Prop :=
  (∃ peer now, .verified i peer now true ∈ log) ∨ ∃ key now, .recorded i key now ∈ log

/-- A login is let in when those before it are answered. -/
def Entry.InTurn (peer : String) : Entry → List Entry → Prop
  | .checked _ p _ _ true, log =>
    p = peer → ∀ j key now, .checked j peer key now true ∈ log → Answered j log
  | _, _ => True

/-- The logins of a peer take turns. -/
def InTurn (peer : String) (log : List Entry) : Prop := Always (Entry.InTurn peer) log

/-- The clock does not go back. -/
def Sorted (log : List Entry) : Prop := log.Pairwise fun e e' => e'.now ≤ e.now

/-! ### The history of each login -/

section

variable {max : ℕ} {window now v now' : ℤ} {reqs : List Request} {i j : ℕ} {s s' : State}
  {log older : List Entry} {e : Entry} {r : Request} {ok : Bool} {p k : String}

/-- The time of a failure recorded for the key. -/
def Entry.recordedAt (key : String) : Entry → Option ℤ
  | .recorded _ k now => if k = key then some now else none
  | _ => none

/-- The failures recorded for a key. -/
def recordings (key : String) (log : List Entry) : List ℤ := log.filterMap (Entry.recordedAt key)

/-- The entries of one login. -/
abbrev mine (i : ℕ) (log : List Entry) : List Entry := own Entry.owner (some i) log

/-- What has happened to a login when an entry about it is made; it is let through only if fewer
than `max` recordings are recent. -/
def Entry.Follows (max : ℕ) (window : ℤ) (reqs : List Request) : Entry → List Entry → Prop
  | .checked i peer key now ok, log =>
    mine i log = [] ∧ (∃ r, reqs[i]? = some r ∧ r.peer = peer ∧ clientIP r = key) ∧
      (ok = true → Sorted (.checked i peer key now ok :: log) →
        (recent window now (recordings key log)).length < max)
  | .verified i peer _ _, log => ∃ key now, mine i log = [.checked i peer key now true]
  | .recorded i key _, log =>
    ∃ peer now now', mine i log = [.verified i peer now false, .checked i peer key now' true]
  | .swept _, _ => True

/-- The limiter has the failures of the history that are in the window. -/
def Counts (window : ℤ) (s : State) : Prop :=
  Sorted s.log → ∀ key now, (∀ e ∈ s.log, e.now ≤ now) →
    (recent window now (s.attempts key)).length = (recent window now (recordings key s.log)).length

/-- The invariant of the logins. -/
structure Inv (max : ℕ) (window : ℤ) (reqs : List Request) (s : State) : Prop where
  follows : Always (Entry.Follows max window reqs) s.log
  counts : Counts window s

/-- What the others do to the history of login `i`: nothing. -/
def Rely (i : ℕ) (s s' : State) : Prop := mine i s'.log = mine i s.log

/-- What login `i` does to the others. -/
def Guar (i : ℕ) (s s' : State) : Prop := ∀ j, j ≠ i → mine j s'.log = mine j s.log

theorem guar_cons (h : s'.log = e :: s.log) (he : e.owner = some i) : Guar i s s' := by
  intro j hj
  rw [h]
  exact own_cons (by rw [he]; exact fun heq => hj (Option.some.inj heq).symm)

theorem mine_cons (he : e.owner = some i) : mine i (e :: log) = e :: mine i log :=
  filter_cons_of_pos (decide_eq_true he)

theorem recent_recent (h : now ≤ now') (times : List ℤ) :
    recent window now' (recent window now times) = recent window now' times := by
  unfold recent
  rw [filter_filter]
  refine filter_congr fun t _ => ?_
  rw [← Bool.decide_and]
  have hsame : (now' - window < t ∧ now - window < t) ↔ now' - window < t := by omega
  simp only [hsame]

theorem recent_append (now : ℤ) (times times' : List ℤ) :
    recent window now (times ++ times') = recent window now times ++ recent window now times' :=
  filter_append ..

theorem Sorted.tail (h : Sorted (e :: log)) : Sorted log := (pairwise_cons.mp h).2

theorem Sorted.le (h : Sorted (e :: log)) : ∀ e' ∈ log, e'.now ≤ e.now :=
  (pairwise_cons.mp h).1

theorem Counts.trim (h : Counts window s) (hlog : s'.log = e :: s.log)
    (he : ∀ key, e.recordedAt key = none)
    (hattempts : ∀ key, s'.attempts key = s.attempts key ∨
      s'.attempts key = recent window e.now (s.attempts key)) : Counts window s' := by
  intro hsorted key now hnow
  rw [hlog] at hsorted hnow ⊢
  have hlater : e.now ≤ now := hnow e mem_cons_self
  have hrecordings : recordings key (e :: s.log) = recordings key s.log :=
    filterMap_cons_none (he key)
  rw [hrecordings, ← h hsorted.tail key now fun e' he' => hnow e' (mem_cons_of_mem e he')]
  rcases hattempts key with hsame | htrimmed
  · rw [hsame]
  · rw [htrimmed, recent_recent hlater]

theorem Counts.record {key : String} (h : Counts window s)
    (hlog : s'.log = .recorded i key now :: s.log)
    (hattempts : ∀ k, s'.attempts k = if k = key then s.attempts k ++ [now] else s.attempts k) :
    Counts window s' := by
  intro hsorted k t ht
  rw [hlog] at hsorted ht ⊢
  have hold := h hsorted.tail k t fun e he => ht e (mem_cons_of_mem _ he)
  by_cases hk : k = key
  · have hrecordings : recordings k (.recorded i key now :: s.log) = now :: recordings k s.log :=
      filterMap_cons_some (if_pos hk.symm)
    have hnew : recent window t (now :: recordings k s.log) =
        recent window t [now] ++ recent window t (recordings k s.log) :=
      recent_append t [now] (recordings k s.log)
    rw [hattempts, if_pos hk, hrecordings, hnew, recent_append, length_append,
      length_append, hold, Nat.add_comm]
  · have hrecordings : recordings k (.recorded i key now :: s.log) = recordings k s.log :=
      filterMap_cons_none (if_neg fun heq => hk heq.symm)
    rw [hattempts, if_neg hk, hrecordings, hold]

/-! ### The steps -/

/-- The judgement for login `i`. -/
abbrev Sound (max : ℕ) (window : ℤ) (reqs : List Request) (i : ℕ) (p : Run Outcome) (s : State) :
    Prop :=
  p.Safe (Inv max window reqs) (Rely i) (Guar i) (fun _ _ => True) s

theorem sound_pure (out : Outcome) (s : State) : Sound max window reqs i (pure out) s :=
  fun _ _ _ => trivial

theorem guar_refl (i : ℕ) (s : State) : Guar i s s := fun _ _ => rfl

theorem Inv.allow (h : Inv max window reqs s) (hr : reqs[i]? = some r) (hmine : mine i s.log = []) :
    Inv max window reqs
      { s.trim window (clientIP r) now with
        log := .checked i r.peer (clientIP r) now
          (decide ((recent window now (s.attempts (clientIP r))).length < max)) :: s.log } := by
  refine ⟨⟨⟨hmine, ⟨r, hr, rfl, rfl⟩, fun hok hsorted => ?_⟩, h.follows⟩, ?_⟩
  · rw [← h.counts hsorted.tail _ now hsorted.le]
    exact of_decide_eq_true hok
  refine h.counts.trim rfl (fun _ => rfl) fun key => ?_
  by_cases hkey : key = clientIP r
  · exact .inr (if_pos hkey)
  · exact .inl (if_neg hkey)

theorem openSession_sound (r : Request) (s : State) :
    Sound max window reqs i (openSession r) s := by
  refine safe_observe_bind (guar_refl i) fun s1 _ _ e1 => ?_
  cases e1.idErr with
  | some err => exact sound_pure _ s1
  | none => ?_
  refine safe_observe_bind (guar_refl i) fun s2 _ _ e2 => ?_
  cases e2.storeErr with
  | some err => exact sound_pure _ s2
  | none => ?_
  refine safe_observe_bind (guar_refl i) fun s3 _ _ e3 => ?_
  cases e3.mustChangePassword with
  | true | false => exact sound_pure _ s3

theorem record_sound
    (hmine : mine i s.log =
      [.verified i r.peer now false, .checked i r.peer (clientIP r) now' true]) :
    Sound max window reqs i (do
      record i (clientIP r)
      pure (.login "Invalid username or password" r.next)) s := by
  refine safe_act_bind.mpr fun s1 hrely hinv e => ⟨⟨⟨?_, hinv.follows⟩, ?_⟩, ?_, ?_⟩
  · exact ⟨r.peer, now, now', hrely.trans hmine⟩
  · exact hinv.counts.record rfl fun _ => rfl
  · exact guar_cons rfl rfl
  · exact sound_pure _ _

theorem login_sound (hr : reqs[i]? = some r) (hmine : mine i s.log = []) :
    Sound max window reqs i (handleLogin max window i r) s := by
  unfold handleLogin
  split
  · exact sound_pure _ s
  refine safe_act_bind.mpr fun s1 hrely hinv e => ?_
  have hnone : mine i s1.log = [] := hrely.trans hmine
  refine ⟨hinv.allow hr hnone, guar_cons rfl rfl, ?_⟩
  cases hok : decide ((recent window e.now (s1.attempts (clientIP r))).length < max) with
  | false => exact sound_pure _ _
  | true => ?_
  refine safe_act_bind.mpr fun s2 hrely2 hinv2 e2 => ?_
  have hchecked : mine i s2.log = [.checked i r.peer (clientIP r) e.now true] := by
    refine hrely2.trans ?_
    rw [mine_cons rfl, hnone]
  refine ⟨⟨⟨⟨clientIP r, e.now, hchecked⟩, hinv2.follows⟩, ?_⟩, guar_cons rfl rfl, ?_⟩
  · exact hinv2.counts.trim rfl (fun _ => rfl) fun _ => .inl rfl
  cases hauth : e2.authenticated with
  | true => exact openSession_sound r _
  | false => ?_
  have hfailed : mine i (.verified i r.peer e2.now false :: s2.log) =
      [.verified i r.peer e2.now false, .checked i r.peer (clientIP r) e.now true] := by
    rw [mine_cons rfl, hchecked]
  exact record_sound hfailed

theorem sweep_inv (now : ℤ) (s : State) (h : Inv max window reqs s) :
    Inv max window reqs (sweep window now s) ∧ ∀ j, Rely j s (sweep window now s) := by
  refine ⟨⟨⟨trivial, h.follows⟩, ?_⟩, fun j => own_cons nofun⟩
  exact h.counts.trim rfl (fun _ => rfl) fun _ => .inr rfl

/-- **Every run keeps the invariant.** -/
theorem history_follows (max : ℕ) (window : ℤ) (reqs : List Request) (sched : List (Event ℤ Env)) :
    Always (Entry.Follows max window reqs) (history max window reqs sched) := by
  have hinit : (logins max window reqs).AllSafe (Inv max window reqs) Rely Guar
      (fun _ _ _ => True) :=
    Pool.allSafe_mapIdx ⟨trivial, fun _ _ _ _ => rfl⟩ fun _ _ hr => login_sound hr rfl
  have hrefl : ∀ i s, Rely i s s := fun _ _ => rfl
  have htrans : ∀ i a b c, Rely i a b → Rely i b c → Rely i a c := fun _ _ _ _ h h' => h'.trans h
  have hguar : ∀ i j, i ≠ j → ∀ s s', Inv max window reqs s → Guar i s s' → Rely j s s' :=
    fun _ j hij _ _ _ h => h j hij.symm
  exact (Pool.exec_safe hrefl htrans hguar sweep_inv hinit sched).inv.follows

/-! ### Counting -/

variable {peer key : String} {since til : ℤ}

theorem mem_mine (he : e ∈ log) (hi : e.owner = some i) : e ∈ mine i log :=
  mem_own.mpr ⟨he, hi⟩

theorem mem_of_mine {l : List Entry} (h : mine i log = l) (he : e ∈ l) : e ∈ log :=
  (mem_own.mp (h ▸ he : e ∈ mine i log)).1

theorem not_verified_before (h : Entry.Follows max window reqs (.verified i p v ok) log) :
    ∀ p' v' ok', .verified i p' v' ok' ∉ log := by
  intro p' v' ok' hmem
  obtain ⟨k, now, hmine⟩ := h
  have hin := mem_mine hmem (rfl : Entry.owner (.verified i p' v' ok') = some i)
  rw [hmine, mem_singleton] at hin
  cases hin

variable (hlog : Always (Entry.Follows max window reqs) log)

include hlog in
theorem Answered.verified (h : Answered i log) : ∃ p v ok, .verified i p v ok ∈ log := by
  rcases h with ⟨p, v, hmem⟩ | ⟨k, now, hmem⟩
  · exact ⟨p, v, true, hmem⟩
  obtain ⟨older, hsuffix, p, v, now', hmine⟩ := hlog.mem hmem
  have hverified := mem_of_mine hmine mem_cons_self
  exact ⟨p, v, false, hsuffix.subset (mem_cons_of_mem _ hverified)⟩

theorem mem_failures (h : e ∈ failures peer since til log) :
    ∃ i v, e = .verified i peer v false ∧ .verified i peer v false ∈ log ∧ since ≤ v ∧ v < til := by
  obtain ⟨hmem, hfails⟩ := mem_filter.mp h
  cases e with
  | verified i p v ok =>
    simp only [Entry.isFailure, Bool.and_eq_true, decide_eq_true_eq, Bool.not_eq_true'] at hfails
    obtain ⟨⟨⟨rfl, rfl⟩, hsince⟩, htil⟩ := hfails
    exact ⟨i, v, rfl, hmem, hsince, htil⟩
  | _ => cases hfails

include hlog in
theorem owners_nodup : ((failures peer since til log).map Entry.owner).Nodup := by
  induction log with
  | nil => exact nodup_nil
  | cons e log ih => ?_
  obtain ⟨hfollows, hrest⟩ := hlog
  rw [failures, filter_cons]
  split
  · next hfails =>
    rw [map_cons, nodup_cons]
    refine ⟨fun hmem => ?_, ih hrest⟩
    obtain ⟨e', he', howner⟩ := mem_map.mp hmem
    obtain ⟨j, v, rfl, hold, -⟩ := mem_failures he'
    cases e with
    | verified i p v' ok =>
      obtain rfl : j = i := Option.some.inj howner
      exact not_verified_before hfollows _ _ _ hold
    | _ => cases hfails
  · exact ih hrest

include hlog in
theorem verified_unique {p' : String} {v' : ℤ}
    {ok' : Bool} (h : .verified i p v ok ∈ log) (h' : .verified i p' v' ok' ∈ log) :
    (.verified i p v ok : Entry) = .verified i p' v' ok' := by
  obtain ⟨older, hsuffix, hfollows⟩ := hlog.mem h
  obtain ⟨older', hsuffix', hfollows'⟩ := hlog.mem h'
  rcases suffix_or_suffix_of_suffix hsuffix hsuffix' with hle | hle
  · rcases mem_cons.mp (hle.subset mem_cons_self) with heq | hold
    · exact heq
    · exact absurd hold (not_verified_before hfollows' _ _ _)
  rcases mem_cons.mp (hle.subset mem_cons_self) with heq | hold
  · exact heq.symm
  · exact absurd hold (not_verified_before hfollows _ _ _)

include hlog in
theorem recorded_of_failure (hkey : ∀ r ∈ reqs, r.peer = peer → clientIP r = key)
    (hsorted : Sorted log) (hfailure : .verified i peer v false ∈ log) (h : Answered i log) :
    ∃ now, v ≤ now ∧ .recorded i key now ∈ log := by
  rcases h with ⟨p, v', hok⟩ | ⟨k, now, hmem⟩
  · exact absurd (verified_unique hlog hfailure hok) (by simp)
  obtain ⟨older, hsuffix, p, v', now', hmine⟩ := hlog.mem hmem
  have hverified : .verified i p v' false ∈ older := mem_of_mine hmine mem_cons_self
  have hchecked : .checked i p k now' true ∈ older := mem_of_mine hmine (by simp)
  have hsame := verified_unique hlog hfailure (hsuffix.subset (mem_cons_of_mem _ hverified))
  obtain ⟨-, rfl, rfl, -⟩ := Entry.verified.inj hsame
  have hk : k = key := by
    obtain ⟨-, -, -, ⟨r, hr, hpeer, hip⟩, -⟩ := (hlog.suffix hsuffix).2.mem hchecked
    rw [← hip]
    exact hkey r (mem_of_getElem? hr) hpeer
  have hlater : Sorted (.recorded i k now :: older) := hsorted.sublist hsuffix.sublist
  exact ⟨now, hlater.le _ hverified, hk ▸ hmem⟩

/-- A failure recorded for the key since then. -/
def Entry.isRecording (key : String) (since : ℤ) : Entry → Bool
  | .recorded _ k now => k = key && since ≤ now
  | _ => false

theorem length_recordings (h : now - window < since) :
    (log.filter (Entry.isRecording key since)).length ≤
      (recent window now (recordings key log)).length := by
  induction log with
  | nil => exact Nat.le_refl _
  | cons e log ih => ?_
  have hgrows : (recent window now (recordings key log)).length ≤
      (recent window now (recordings key (e :: log))).length := by
    refine (List.Sublist.filter _ ?_).length_le
    exact (sublist_cons_self e log).filterMap _
  rw [filter_cons]
  split
  · next hrecording =>
    cases e with
    | recorded j k t =>
      simp only [Entry.isRecording, Bool.and_eq_true, decide_eq_true_eq] at hrecording
      obtain ⟨rfl, hsince⟩ := hrecording
      have hcons : recordings k (.recorded j k t :: log) = t :: recordings k log :=
        filterMap_cons_some (if_pos rfl)
      have hrecent : now - window < t := by omega
      rw [hcons, recent, filter_cons, if_pos (decide_eq_true hrecent)]
      exact Nat.succ_le_succ ih
    | _ => cases hrecording
  · exact Nat.le_trans ih hgrows

include hlog in
/-- **When a login is let through, those of the peer that failed since a recent time are fewer than
`max`**: each of them was recorded. -/
theorem failures_lt (hkey : ∀ r ∈ reqs, r.peer = peer → clientIP r = key) (hturn : InTurn peer log)
    (hsorted : Sorted log) (hsuffix : .checked i peer k now true :: older <:+ log)
    (hsince : now - window < since) : (failures peer since til older).length < max := by
  have hall := hlog.suffix hsuffix
  have hsort : Sorted (.checked i peer k now true :: older) := hsorted.sublist hsuffix.sublist
  obtain ⟨⟨-, ⟨r, hr, hpeer, hip⟩, hcount⟩, holder⟩ := hall
  have hk : k = key := hip ▸ hkey r (mem_of_getElem? hr) hpeer
  have hanswered := (hturn.suffix hsuffix).1 rfl
  have hsubset : (failures peer since til older).map Entry.owner ⊆
      (older.filter (Entry.isRecording key since)).map Entry.owner := by
    intro o ho
    obtain ⟨e, he, rfl⟩ := mem_map.mp ho
    obtain ⟨j, v, rfl, hmem, hv, -⟩ := mem_failures he
    obtain ⟨before, hbefore, k', now', hmine⟩ := holder.mem hmem
    have hchecked : .checked j peer k' now' true ∈ older :=
      hbefore.subset (mem_cons_of_mem _ (mem_of_mine hmine mem_cons_self))
    obtain ⟨t, hvt, hrecorded⟩ := recorded_of_failure holder hkey hsort.tail hmem
      (hanswered j k' now' hchecked)
    refine mem_map.mpr ⟨_, mem_filter.mpr ⟨hrecorded, ?_⟩, rfl⟩
    simp only [Entry.isRecording, Bool.and_eq_true, decide_eq_true_eq]
    exact ⟨trivial, by omega⟩
  calc (failures peer since til older).length
      = ((failures peer since til older).map Entry.owner).length := (length_map _).symm
    _ ≤ ((older.filter (Entry.isRecording key since)).map Entry.owner).length :=
        (subperm_of_subset (owners_nodup holder) hsubset).length_le
    _ = (older.filter (Entry.isRecording key since)).length := length_map _
    _ ≤ (recent window now (recordings key older)).length := length_recordings hsince
    _ < max := hk ▸ hcount rfl hsort

include hlog in
theorem no_failure_between (hturn : InTurn peer log) {mid : List Entry}
    (hsuffix : .verified i peer v ok :: (mid ++ .checked i peer k now true :: older) <:+ log) :
    failures peer since til mid = [] := by
  rw [eq_nil_iff_forall_not_mem]
  intro e he
  obtain ⟨j, w, rfl, hmem, -⟩ := mem_failures he
  obtain ⟨hfollows, hrest⟩ := hlog.suffix hsuffix
  obtain ⟨later, before, rfl⟩ := append_of_mem hmem
  have hj : .verified j peer w false :: (before ++ .checked i peer k now true :: older) <:+
      (later ++ .verified j peer w false :: before) ++ .checked i peer k now true :: older :=
    ⟨later, by simp⟩
  obtain ⟨k2, now2, hmine⟩ := (hrest.suffix hj).1
  have hchecked := mem_of_mine hmine mem_cons_self
  -- nothing of the first login is there but its check, as it is verified only later
  have honly : ¬ Answered i
      ((later ++ .verified j peer w false :: before) ++ .checked i peer k now true :: older) := by
    intro hanswered
    obtain ⟨p, v', ok', hin⟩ := hanswered.verified hrest
    exact not_verified_before hfollows p v' ok' hin
  have hturn' := (hturn.suffix hsuffix).2
  rcases mem_append.mp hchecked with hafter | hcons
  · -- the other login was let through while the first one was not answered
    obtain ⟨front, rest, rfl⟩ := append_of_mem hafter
    have hs : .checked j peer k2 now2 true :: (rest ++ .checked i peer k now true :: older) <:+
        (later ++ .verified j peer w false :: (front ++ .checked j peer k2 now2 true :: rest)) ++
          .checked i peer k now true :: older :=
      ⟨later ++ .verified j peer w false :: front, by simp⟩
    have hanswered := (hturn'.suffix hs).1 rfl i k now (by simp)
    refine honly ?_
    rcases hanswered with ⟨p, v', hin⟩ | ⟨k', v', hin⟩
    · exact .inl ⟨p, v', hs.subset (mem_cons_of_mem _ hin)⟩
    · exact .inr ⟨k', v', hs.subset (mem_cons_of_mem _ hin)⟩
  · rcases mem_cons.mp hcons with heq | hearlier
    · obtain ⟨rfl, -⟩ := Entry.checked.inj heq
      exact not_verified_before hfollows peer w false (by simp)
    -- the other login was answered when the first one was let through
    have hs : .checked i peer k now true :: older <:+
        (later ++ .verified j peer w false :: before) ++ .checked i peer k now true :: older :=
      ⟨_, rfl⟩
    have hanswered := (hturn'.suffix hs).1 rfl j k2 now2 hearlier
    obtain ⟨p, v', ok', hin⟩ := hanswered.verified (hrest.suffix hs).2
    exact not_verified_before (hrest.suffix hj).1 p v' ok' (by simp [hin])

end

/-- **At most `max` verifications for a peer fail in a span of length `window`**: in every
interleaving of logins and sweeps, if all requests of the peer have one key, each is let through
when those before it are answered, and the clock does not go back. -/
theorem failures_bounded (max : ℕ) (window : ℤ) (reqs : List Request) (sched : List (Event ℤ Env))
    (peer key : String) (hkey : ∀ r ∈ reqs, r.peer = peer → clientIP r = key)
    (hturn : InTurn peer (history max window reqs sched))
    (hsorted : Sorted (history max window reqs sched)) (t : ℤ) :
    (failures peer t (t + window) (history max window reqs sched)).length ≤ max := by
  have hlog := history_follows max window reqs sched
  generalize history max window reqs sched = log at hlog hturn hsorted ⊢
  cases hf : failures peer t (t + window) log with
  | nil => exact Nat.zero_le max
  | cons e rest => ?_
  -- the last failure, the check before it, and what failed before that check
  obtain ⟨newer, before, hsplit, -, hfails, hrest⟩ := filter_eq_cons_iff.mp hf
  have hsuffix : e :: before <:+ log := ⟨newer, hsplit.symm⟩
  have hmem : e ∈ failures peer t (t + window) log := hf ▸ mem_cons_self
  obtain ⟨i, v, rfl, -, -, hv⟩ := mem_failures hmem
  obtain ⟨k, now, hmine⟩ := (hlog.suffix hsuffix).1
  obtain ⟨mid, older, hbefore⟩ := append_of_mem (mem_of_mine hmine mem_cons_self)
  have hnow : now ≤ v := by
    have hsort : Sorted (.verified i peer v false :: before) := hsorted.sublist hsuffix.sublist
    exact hsort.le _ (mem_of_mine hmine mem_cons_self)
  rw [hbefore] at hsuffix
  have hnone : failures peer t (t + window) mid = [] := no_failure_between hlog hturn hsuffix
  have hchecked : .checked i peer k now true :: older <:+ log :=
    (suffix_append _ _).trans ((suffix_cons _ _).trans hsuffix)
  have hlt : (failures peer t (t + window) older).length < max :=
    failures_lt hlog hkey hturn hsorted hchecked (by omega)
  have heq : rest = failures peer t (t + window) older := by
    rw [← hrest, hbefore, filter_append, ← failures, hnone, nil_append]
    exact filter_cons_of_neg nofun
  rw [length_cons, heq]
  exact hlt

/-! ### Logins that are not counted -/

/-- `newLoginRateLimiter`: five failures in a quarter of an hour, in seconds. -/
def loginMax : ℕ := 5

/-- Fifteen minutes. -/
def loginWindow : ℤ := 15 * 60

/-- A login with a forwarded address of its own choice. -/
def guess (forwardedFor : String) : Request := { peer := "10.0.0.9", forwardedFor := forwardedFor }

/-- Each of the logins in turn, with all its steps at one time. -/
def inTurn (n : ℕ) : List (Event ℤ Env) :=
  (List.range n).flatMap fun i => replicate 3 (.run i { now := i })

/-- All logins at the same time: each takes a step before any takes the next. -/
def atOnce (n : ℕ) : List (Event ℤ Env) :=
  (replicate 3 (List.range n)).flatten.map fun i => .run i { now := 0 }

theorem failures_bounded_two :
    (failures "10.0.0.9" 0 (0 + loginWindow)
      (history loginMax loginWindow [guess "", guess ""] (inTurn 2))).length ≤ loginMax := by
  have hlog : history loginMax loginWindow [guess "", guess ""] (inTurn 2) =
      [.recorded 1 "10.0.0.9" 1, .verified 1 "10.0.0.9" 1 false,
        .checked 1 "10.0.0.9" "10.0.0.9" 1 true, .recorded 0 "10.0.0.9" 0,
        .verified 0 "10.0.0.9" 0 false, .checked 0 "10.0.0.9" "10.0.0.9" 0 true] := by
    decide +kernel
  refine failures_bounded loginMax loginWindow _ _ "10.0.0.9" "10.0.0.9" ?_ ?_ ?_ 0
  · intro r hr _
    simp only [mem_cons, not_mem_nil, or_false, or_self] at hr
    rw [hr]
    decide +kernel
  · rw [hlog]
    refine ⟨trivial, trivial, fun _ j k now hj => ?_, trivial, trivial, fun _ j k now hj => ?_,
      trivial⟩
    · simp only [mem_cons, not_mem_nil, or_false, reduceCtorEq, false_or, Entry.checked.injEq] at hj
      rw [hj.1]
      exact .inr ⟨"10.0.0.9", 0, by simp⟩
    · cases hj
  · rw [hlog, Sorted]
    decide +kernel

/-- **Six verifications fail where five are allowed**: one after the other with a header that names
another client each time, or without headers at the same time. -/
theorem failures_unbounded :
    loginMax < (failures "10.0.0.9" 0 loginWindow (history loginMax loginWindow
        [guess "a", guess "b", guess "c", guess "d", guess "e", guess "f"] (inTurn 6))).length ∧
      loginMax < (failures "10.0.0.9" 0 loginWindow (history loginMax loginWindow
        (replicate 6 (guess "")) (atOnce 6))).length := by
  decide +kernel

end ArcRelay.Throttle
