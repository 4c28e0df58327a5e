import ArcRelay.Manager.Lifecycle
import Mathlib.Data.List.Chain

/-!
# How often a server is recovered

The health monitor (`internal/proxy/health.go`) recovers a server whose status is `error`, at
most so many times and not too soon after the last time.  A recovery runs in the loop of the
monitor if there is nothing outside to be kept, and beside it otherwise.  When it has succeeded
what the monitor knows of recoveries is forgotten, so that the server has all its attempts
again.

For a server without a container a recovery succeeds as soon as there is a proxy for it: nothing
is sent to the server.  Its status is `running` then, three pings fail, and it is recovered
again, with neither a limit nor a pause.

The model is a state machine with a clock.  The loop takes one step after the other; its
critical sections are steps, and so are the answers it waits for.  The status may be written by
anybody at any time: by the manager when it starts the server, by an edit, by an update.

* `Watch`, `Move`: the monitor with its clock.
* `Verified`: a recovery that succeeds is verified by a ping.
* `recoveries_bounded`, `recovery_storm`: the bound, and a run without it.
-/

namespace ArcRelay.Lifecycle

open List Nat

/-! ### The monitor -/

inductive Happening where
  | started (time : ℕ)
  /-- A recovery has succeeded, and what was known of recoveries is forgotten. -/
  | recovered
  | failed
  | pinged
  deriving DecidableEq

/-- Where the loop is: it waits for the next tick, it pings, it is about to recover a server
with this row, or it recovers one itself. -/
inductive Loop where
  | idle
  | pinging
  | erroring (srv : Server)
  | retrying
  deriving DecidableEq

/-- A recovery beside the loop: the container is being recreated, or the goroutine is about to
end. -/
inductive Goroutine where
  | recreating
  | leaving

structure Watch where
  clock : ℕ := 0
  row : Server
  monitor : HealthMonitor := {}
  loop : Loop := .idle
  goroutines : List Goroutine := []
  log : List Happening := []

inductive Move where
  | advance (d : ℕ)
  | write (row : Server)
  | tick (listErr : Bool)
  /-- The loop has looked for the backend, and has its answer. -/
  | ping (answer : Option (Except String Unit))
  /-- The loop decides about a recovery, which takes it so long. -/
  | claim (lapse : ℕ)
  /-- `RetryServer` returns in the loop. -/
  | retry (outcome : Except String Unit)
  /-- A goroutine moves on; `RecreateContainer` has returned this. -/
  | goroutine (i : ℕ) (outcome : Except String Unit)

def HealthMonitor.resetRecoveryState (hm : HealthMonitor) : HealthMonitor :=
  { hm with failCount := 0, recoverAttempts := 0, lastRecover := none }

def Server.withStatus (srv : Server) (status : ServerStatus) (errorMsg : String) : Server :=
  { srv with status := status, errorMsg := errorMsg }

def Server.withHealth (srv : Server) (health : HealthStatus) (healthError : String) : Server :=
  { srv with health := health, healthError := healthError }

namespace Watch

/-- `checkAll`, up to where it waits. -/
def checkAll (w : Watch) : Watch :=
  match w.row.status with
  | .running => { w with loop := .pinging }
  | .error => { w with loop := .erroring w.row }
  | .stopped =>
    if w.row.health ≠ .unknown then { w with row := w.row.withHealth .unknown "" } else w
  | .starting => w

def checkRunning (answer : Option (Except String Unit)) (w : Watch) : Watch :=
  match answer with
  | none =>
    { w with
      row := (w.row.withStatus .stopped "backend not found").withHealth .unknown ""
      monitor := { w.monitor with failCount := 0 }
      loop := .idle }
  | some (.error err) =>
    let count := w.monitor.failCount + 1
    let row := w.row.withHealth .unhealthy err
    { w with
      row := if failThreshold ≤ count then row.withStatus .error err else row
      monitor := { w.monitor with failCount := count }
      loop := .idle }
  | some (.ok ()) =>
    { w with
      row := w.row.withHealth .healthy ""
      monitor := { w.monitor with failCount := 0 }
      loop := .idle
      log := .pinged :: w.log }

/-- `tryRecover`, up to where it starts a recovery or gives up. -/
def tryRecover (srv : Server) (lapse : ℕ) (w : Watch) : Watch :=
  let now := w.clock + lapse
  match w.monitor.claim (isStatelessServer srv) w.clock now with
  | (_, false) => { w with clock := now, loop := .idle }
  | (hm, true) =>
    let w := { w with clock := now, monitor := hm, log := .started now :: w.log }
    if isStatelessServer srv then { w with loop := .retrying }
    else { w with loop := .idle, goroutines := w.goroutines ++ [.recreating] }

def conclude (outcome : Except String Unit) (w : Watch) : Watch :=
  match outcome with
  | .error _ => { w with log := .failed :: w.log }
  | .ok () => { w with monitor := w.monitor.resetRecoveryState, log := .recovered :: w.log }

def stepGoroutine (i : ℕ) (outcome : Except String Unit) (w : Watch) : Watch :=
  match w.goroutines[i]? with
  | some .recreating => { conclude outcome w with goroutines := w.goroutines.set i .leaving }
  | some .leaving =>
    { w with
      monitor := { w.monitor with recovering := false }
      goroutines := w.goroutines.eraseIdx i }
  | none => w

/-- One step; a move that is not the loop's next leaves everything as it is. -/
def step (w : Watch) : Move → Watch
  | .advance d => { w with clock := w.clock + d }
  | .write row => { w with row := row }
  | .tick listErr => if w.loop = .idle ∧ listErr = false then checkAll w else w
  | .ping answer => if w.loop = .pinging then checkRunning answer w else w
  | .claim lapse =>
    match w.loop with
    | .erroring srv => tryRecover srv lapse w
    | _ => w
  | .retry outcome => if w.loop = .retrying then { conclude outcome w with loop := .idle } else w
  | .goroutine i outcome => stepGoroutine i outcome w

def run (w : Watch) (moves : List Move) : Watch := moves.foldl step w

def inProgress (w : Watch) : ℕ := w.goroutines.length + if w.loop = .retrying then 1 else 0

end Watch

/-! ### The log -/

/-- The times at which recoveries were started, the last one first. -/
def starts : List Happening → List ℕ
  | [] => []
  | .started t :: l => t :: starts l
  | _ :: l => starts l

def sinceReset : List Happening → List Happening
  | [] => []
  | .recovered :: _ => []
  | e :: l => e :: sinceReset l

def sincePing : List Happening → List Happening
  | [] => []
  | .pinged :: _ => []
  | e :: l => e :: sincePing l

/-- **Recoveries that succeed are verified**: when a recovery is started, none has succeeded
since the last ping that has. -/
def Verified : List Happening → Prop
  | [] => True
  | .started _ :: l => .recovered ∉ sincePing l ∧ Verified l
  | _ :: l => Verified l

instance decidableVerified : DecidablePred Verified
  | [] => .isTrue trivial
  | .started _ :: l =>
    have := decidableVerified l
    inferInstanceAs (Decidable (.recovered ∉ sincePing l ∧ Verified l))
  | .recovered :: l => decidableVerified l
  | .failed :: l => decidableVerified l
  | .pinged :: l => decidableVerified l

def Apart (later earlier : ℕ) : Prop := earlier + recoveryCooldown ≤ later

structure Paced (times : List ℕ) : Prop where
  few : times.length ≤ maxRecoverAttempts
  apart : times.IsChain Apart

theorem starts_append (l l' : List Happening) : starts (l ++ l') = starts l ++ starts l' := by
  induction l with
  | nil => rfl
  | cons e l ih => ?_
  cases e with
  | started t => exact congrArg (t :: ·) ih
  | recovered | failed | pinged => exact ih

variable {l window : List Happening}

theorem sinceReset_append (h : .recovered ∉ l) (l' : List Happening) :
    sinceReset (l ++ l') = l ++ sinceReset l' := by
  induction l with
  | nil => rfl
  | cons e l ih => ?_
  have ih := ih fun hmem => h (mem_cons_of_mem _ hmem)
  cases e with
  | recovered => exact absurd mem_cons_self h
  | started _ | failed | pinged => exact congrArg (List.cons _) ih

theorem sincePing_append (h : .pinged ∉ l) (l' : List Happening) :
    sincePing (l ++ l') = l ++ sincePing l' := by
  induction l with
  | nil => rfl
  | cons e l ih => ?_
  have ih := ih fun hmem => h (mem_cons_of_mem _ hmem)
  cases e with
  | pinged => exact absurd mem_cons_self h
  | started _ | failed | recovered => exact congrArg (List.cons _) ih

theorem Verified.suffix {l' : List Happening} (h : Verified (l ++ l')) : Verified l' := by
  induction l with
  | nil => exact h
  | cons e l ih => ?_
  cases e with
  | started t => exact ih h.2
  | recovered | failed | pinged => exact ih h

theorem last_start (h : starts window ≠ []) :
    ∃ after t rest, window = after ++ .started t :: rest ∧ starts window = t :: starts rest := by
  induction window with
  | nil => exact absurd rfl h
  | cons e l ih => ?_
  have hlater : starts (e :: l) = starts l →
      ∃ after t rest, e :: l = after ++ .started t :: rest ∧
        starts (e :: l) = t :: starts rest := by
    intro heq
    rw [heq] at h ⊢
    obtain ⟨after, t, rest, hl, hstarts⟩ := ih h
    exact ⟨e :: after, t, rest, by rw [hl, cons_append], hstarts⟩
  cases e with
  | started t => exact ⟨[], t, l, rfl, rfl⟩
  | recovered | failed | pinged => exact hlater rfl

/-! ### The invariant -/

/-- What the monitor knows is what has happened since it has forgotten everything, and there is
at most one recovery. -/
structure Inv (w : Watch) : Prop where
  attempts : w.monitor.recoverAttempts = (starts (sinceReset w.log)).length
  last : w.monitor.lastRecover = (starts (sinceReset w.log)).head?
  past : ∀ t ∈ starts w.log, t ≤ w.clock
  paced : ∀ l, l <:+ w.log → Paced (starts (sinceReset l))
  beside : w.goroutines.length = if w.monitor.recovering then 1 else 0
  inline : w.loop = .retrying → w.monitor.recovering = false

theorem paced_nil : Paced [] := ⟨zero_le _, List.IsChain.nil⟩

theorem inv_start (row : Server) : Inv { row := row } where
  attempts := rfl
  last := rfl
  past t ht := nomatch ht
  paced l hl := by
    rw [suffix_nil.mp hl]
    exact paced_nil
  beside := rfl
  inline h := nomatch h

variable {w w' : Watch} {hm : HealthMonitor} {stateless : Bool}

theorem Inv.quiet (h : Inv w) (hattempts : w'.monitor.recoverAttempts = w.monitor.recoverAttempts)
    (hlast : w'.monitor.lastRecover = w.monitor.lastRecover)
    (hrecovering : w'.monitor.recovering = w.monitor.recovering) (hclock : w.clock ≤ w'.clock)
    (hgoroutines : w'.goroutines.length = w.goroutines.length) (hlog : w'.log = w.log)
    (hloop : w'.loop = .retrying → w.loop = .retrying) : Inv w' where
  attempts := by rw [hattempts, hlog, h.attempts]
  last := by rw [hlast, hlog, h.last]
  past t ht := by
    rw [hlog] at ht
    exact le_trans (h.past t ht) hclock
  paced := hlog ▸ h.paced
  beside := by rw [hgoroutines, hrecovering, h.beside]
  inline hl := hrecovering ▸ h.inline (hloop hl)

theorem Inv.note (h : Inv w) {e : Happening} (hstarts : starts (sinceReset (e :: w.log)) =
      starts (sinceReset w.log)) (hpast : starts (e :: w.log) = starts w.log) :
    Inv { w with log := e :: w.log } where
  attempts := by rw [hstarts, h.attempts]
  last := by rw [hstarts, h.last]
  past t ht := h.past t (hpast ▸ ht)
  paced l hl := by
    rcases suffix_cons_iff.mp hl with rfl | hl
    · rw [hstarts]
      exact h.paced w.log (suffix_refl _)
    · exact h.paced l hl
  beside := h.beside
  inline := h.inline

theorem Inv.recovered (h : Inv w) :
    Inv { w with monitor := w.monitor.resetRecoveryState, log := .recovered :: w.log } where
  attempts := rfl
  last := rfl
  past t ht := h.past t ht
  paced l hl := by
    rcases suffix_cons_iff.mp hl with rfl | hl
    · exact paced_nil
    · exact h.paced l hl
  beside := h.beside
  inline := h.inline

theorem claim_true {hm' : HealthMonitor} {since now : ℕ}
    (h : hm.claim stateless since now = (hm', true)) :
    hm.recovering = false ∧ (∀ last ∈ hm.lastRecover, recoveryCooldown ≤ since - last) ∧
      hm.recoverAttempts < maxRecoverAttempts ∧
      hm' = { hm with
        lastRecover := some now
        recoverAttempts := hm.recoverAttempts + 1
        recovering := !stateless } := by
  unfold HealthMonitor.claim at h
  split at h
  · cases h
  next hrecovering =>
  split at h
  · cases h
  next hpause =>
  split at h
  · cases h
  next hfew =>
  refine ⟨Bool.eq_false_iff.mpr hrecovering, fun last hmem => ?_, Nat.lt_of_not_le hfew,
    (congrArg Prod.fst h).symm⟩
  refine Nat.le_of_not_lt fun hlt => hpause ?_
  rw [Option.mem_def.mp hmem]
  exact decide_eq_true hlt

/-- **A recovery is started** in time, and is one of few. -/
theorem Inv.started (h : Inv w) {lapse : ℕ}
    (hclaim : w.monitor.claim stateless w.clock (w.clock + lapse) = (hm, true)) :
    hm.recoverAttempts = (starts (sinceReset (.started (w.clock + lapse) :: w.log))).length ∧
      hm.lastRecover = (starts (sinceReset (.started (w.clock + lapse) :: w.log))).head? ∧
      (∀ t ∈ starts (.started (w.clock + lapse) :: w.log), t ≤ w.clock + lapse) ∧
      (∀ l, l <:+ .started (w.clock + lapse) :: w.log → Paced (starts (sinceReset l))) ∧
      w.goroutines = [] ∧ hm.recovering = !stateless := by
  obtain ⟨hrecovering, hpause, hfew, rfl⟩ := claim_true hclaim
  have hold := h.paced w.log (suffix_refl _)
  refine ⟨?_, rfl, ?_, fun l hl => ?_, ?_, rfl⟩
  · exact congrArg (· + 1) h.attempts
  · intro t ht
    rcases mem_cons.mp ht with rfl | ht
    · exact le_rfl
    · exact le_trans (h.past t ht) (le_add_right _ _)
  · rcases suffix_cons_iff.mp hl with rfl | hl
    · refine ⟨?_, isChain_cons.mpr ⟨fun last hlast => ?_, hold.apart⟩⟩
      · have hcount : w.monitor.recoverAttempts < maxRecoverAttempts := hfew
        rw [h.attempts] at hcount
        exact hcount
      -- the last one is in the past, and the pause was awaited
      have hmem : last ∈ w.monitor.lastRecover := h.last ▸ hlast
      have hcooldown := hpause last hmem
      have hpositive : 0 < recoveryCooldown := by decide
      show last + recoveryCooldown ≤ w.clock + lapse
      omega
    · exact h.paced l hl
  · refine length_eq_zero_iff.mp ?_
    rw [h.beside, hrecovering]
    rfl

theorem inv_checkAll (h : Inv w) : Inv w.checkAll := by
  unfold Watch.checkAll
  split
  · exact h.quiet rfl rfl rfl le_rfl rfl rfl nofun
  · exact h.quiet rfl rfl rfl le_rfl rfl rfl nofun
  · split
    · exact h.quiet rfl rfl rfl le_rfl rfl rfl id
    · exact h
  · exact h

theorem inv_checkRunning (h : Inv w) (answer : Option (Except String Unit)) :
    Inv (w.checkRunning answer) := by
  unfold Watch.checkRunning
  split
  · exact h.quiet rfl rfl rfl le_rfl rfl rfl nofun
  · exact h.quiet rfl rfl rfl le_rfl rfl rfl nofun
  have hnote := h.note (e := .pinged) rfl rfl
  exact hnote.quiet rfl rfl rfl le_rfl rfl rfl nofun

theorem inv_tryRecover (h : Inv w) (srv : Server) (lapse : ℕ) : Inv (w.tryRecover srv lapse) := by
  unfold Watch.tryRecover
  dsimp only
  split
  · exact h.quiet rfl rfl rfl (le_add_right _ _) rfl rfl nofun
  next hm hclaim =>
  obtain ⟨hattempts, hlast, hpast, hpaced, hnone, hrecovering⟩ := h.started hclaim
  cases hstateless : isStatelessServer srv with
  | true =>
    rw [hstateless] at hrecovering
    rw [if_pos rfl]
    refine ⟨hattempts, hlast, hpast, hpaced, ?_, fun _ => hrecovering⟩
    rw [hnone, hrecovering]
    rfl
  | false =>
    rw [hstateless] at hrecovering
    rw [if_neg Bool.false_ne_true]
    refine ⟨hattempts, hlast, hpast, hpaced, ?_, nofun⟩
    rw [hnone, hrecovering]
    rfl

theorem inv_conclude (h : Inv w) (outcome : Except String Unit) : Inv (w.conclude outcome) := by
  cases outcome with
  | error err => exact h.note rfl rfl
  | ok u => exact h.recovered

theorem conclude_goroutines (outcome : Except String Unit) :
    (w.conclude outcome).goroutines = w.goroutines := by
  cases outcome <;> rfl

theorem inv_stepGoroutine (h : Inv w) (i : ℕ) (outcome : Except String Unit) :
    Inv (w.stepGoroutine i outcome) := by
  unfold Watch.stepGoroutine
  split
  · refine (inv_conclude h outcome).quiet rfl rfl rfl le_rfl ?_ rfl id
    rw [conclude_goroutines]
    exact length_set
  · next hi =>
    obtain ⟨hlt, -⟩ := List.getElem?_eq_some_iff.mp hi
    have hbeside := h.beside
    -- it is the only one
    have hone : w.goroutines.length = 1 := by
      cases hrec : w.monitor.recovering with
      | true => rw [hbeside, hrec, if_pos rfl]
      | false =>
        rw [hbeside, hrec] at hlt
        exact absurd hlt (not_lt_zero i)
    refine ⟨h.attempts, h.last, h.past, h.paced, ?_, fun _ => rfl⟩
    show (w.goroutines.eraseIdx i).length = 0
    rw [length_eraseIdx_of_lt hlt, hone]
  · exact h

/-- **Every step keeps the invariant.** -/
theorem inv_step (h : Inv w) (move : Move) : Inv (w.step move) := by
  unfold Watch.step
  cases move with
  | advance d => exact h.quiet rfl rfl rfl (le_add_right _ _) rfl rfl id
  | write row => exact h.quiet rfl rfl rfl le_rfl rfl rfl id
  | tick listErr =>
    dsimp only
    split
    · exact inv_checkAll h
    · exact h
  | ping answer =>
    dsimp only
    split
    · exact inv_checkRunning h answer
    · exact h
  | claim lapse =>
    dsimp only
    split
    · exact inv_tryRecover h _ lapse
    · exact h
  | retry outcome =>
    dsimp only
    split
    · exact (inv_conclude h outcome).quiet rfl rfl rfl le_rfl rfl rfl nofun
    · exact h
  | goroutine i outcome => exact inv_stepGoroutine h i outcome

theorem inv_run (h : Inv w) (moves : List Move) : Inv (w.run moves) := by
  induction moves generalizing w with
  | nil => exact h
  | cons move moves ih => exact ih (inv_step h move)

theorem Inv.inProgress_le (h : Inv w) : w.inProgress ≤ 1 := by
  unfold Watch.inProgress
  rw [h.beside]
  by_cases hloop : w.loop = .retrying
  · rw [if_pos hloop, h.inline hloop]
    decide
  · split <;> decide

/-- **The recoveries between two pings**, if those that succeed are verified. -/
theorem Inv.window_paced (h : Inv w) (hverified : Verified w.log) {newer older : List Happening}
    (hlog : w.log = newer ++ (window ++ older)) (hping : .pinged ∉ window) :
    Paced (starts window) := by
  by_cases hnone : starts window = []
  · rw [hnone]
    exact paced_nil
  obtain ⟨after, t, rest, rfl, hstarts⟩ := last_start hnone
  have hcut : w.log = (newer ++ after) ++ .started t :: (rest ++ older) := by
    rw [hlog]
    simp only [append_assoc, cons_append]
  -- when the last one was started, none had succeeded since the ping
  have hrest : .recovered ∉ rest := by
    rw [hcut] at hverified
    have hfresh := hverified.suffix.1
    rw [sincePing_append fun hmem => hping (by simp [hmem])] at hfresh
    exact fun hmem => hfresh (mem_append_left _ hmem)
  have hpaced := h.paced (.started t :: (rest ++ older)) (hcut ▸ suffix_append _ _)
  have hsince : starts (sinceReset (.started t :: (rest ++ older))) =
      (t :: starts rest) ++ starts (sinceReset older) := by
    show t :: starts (sinceReset (rest ++ older)) = _
    rw [sinceReset_append hrest, starts_append]
    rfl
  rw [hsince] at hpaced
  rw [hstarts]
  refine ⟨le_trans ?_ hpaced.few, hpaced.apart.prefix (prefix_append _ _)⟩
  exact (prefix_append _ _).length_le

/-! ### Every run -/

/-- **Recoveries are bounded**: along every run from a fresh monitor in which a recovery that has
succeeded is verified by a ping before the next one is started, there are at most three between
two pings that succeed, each five minutes after the one before; and there is never more than one
at a time. -/
theorem recoveries_bounded (row : Server) (moves : List Move)
    (hverified : Verified (Watch.run { row := row } moves).log) :
    (∀ newer window older, (Watch.run { row := row } moves).log = newer ++ (window ++ older) →
      .pinged ∉ window →
        (starts window).length ≤ maxRecoverAttempts ∧ (starts window).IsChain Apart) ∧
      (Watch.run { row := row } moves).inProgress ≤ 1 := by
  have h := inv_run (inv_start row) moves
  refine ⟨fun newer window older hlog hping => ?_, h.inProgress_le⟩
  have hpaced := h.window_paced hverified hlog hping
  exact ⟨hpaced.few, hpaced.apart⟩

/-! ### A server that never answers -/

def deafServer : Server where
  name := "deaf"
  serverType := .remote
  config := ⟨none, none, some ⟨"https://deaf.example", {}⟩⟩
  status := .error

def reconnect : List Move :=
  [.tick false, .claim 0, .write { deafServer with status := .running }, .retry (.ok ())]

def deafTick : List Move :=
  [.advance 30, .tick false, .ping (some (.error "ping failed: connection refused"))]

def deafRound : List Move := reconnect ++ deafTick ++ deafTick ++ deafTick ++ [.advance 30]

def goodRound : List Move := reconnect ++ [.advance 30, .tick false, .ping (some (.ok ()))]

def failedRound : List Move :=
  [.tick false, .claim 0, .retry (.error "connection refused"), .advance 300]

/-- Two recoveries fail and the third succeeds: as many are started before the ping as may be. -/
theorem recoveries_bounded_goodRound :
    let w := Watch.run { row := deafServer } (failedRound ++ failedRound ++ goodRound)
    starts w.log.tail = [600, 300, 0] ∧ (starts w.log.tail).length ≤ maxRecoverAttempts ∧
      (starts w.log.tail).IsChain Apart ∧ w.inProgress ≤ 1 := by
  intro w
  obtain ⟨hwindow, hone⟩ := recoveries_bounded deafServer (failedRound ++ failedRound ++ goodRound)
    (by decide +kernel)
  obtain ⟨hfew, hapart⟩ := hwindow [.pinged] w.log.tail [] (by decide +kernel) (by decide +kernel)
  exact ⟨by decide +kernel, hfew, hapart, hone⟩

/-- **A restart storm**: the server never answers a ping, and is recovered four times in six
minutes. -/
theorem recovery_storm :
    ¬ ∀ newer window older,
      (Watch.run { row := deafServer } (replicate 4 deafRound).flatten).log =
        newer ++ (window ++ older) → .pinged ∉ window →
        (starts window).length ≤ maxRecoverAttempts ∧ (starts window).IsChain Apart := by
  intro h
  have hstarts :
      starts (Watch.run { row := deafServer } (replicate 4 deafRound).flatten).log =
        [360, 240, 120, 0] := by decide +kernel
  have hping : .pinged ∉ (Watch.run { row := deafServer } (replicate 4 deafRound).flatten).log := by
    decide +kernel
  obtain ⟨hfew, -⟩ := h [] _ [] (by rw [nil_append, append_nil]) hping
  exact absurd hfew (by decide)

end ArcRelay.Lifecycle
