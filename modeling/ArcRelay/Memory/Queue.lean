import ArcRelay.Lib.History
import ArcRelay.Memory.Replay
import Mathlib.Data.List.Count
import Mathlib.Tactic.Ring

/-!
# The extraction queue

Every extraction goes through one queue (`internal/memory/extractor/queue.go`): `Enqueue`
checks a session against the gate of its mode, refuses one that is pending already, and
puts the rest on a channel of bounded capacity; workers take items from the channel, check
the gate once more, run `Extract`, and take the session off the pending set in a deferred
function.

The pending set is guarded by a mutex and the channel is not: `Enqueue` sends before it
records what it has sent, and a worker may have the item by then.  So the goroutines are
modelled statement by statement.  A move of a goroutine that has to wait, for the mutex or
for the channel, is not enabled; between two moves others move, transcripts are ingested
and the bookkeeping of a session is written.

What a pass of `Extract` does is the subject of `ArcRelay.Memory.Extractor`; here a pass
starts and ends, and the columns it writes may change at any time.

* `run`: a sequence of events, each if it is enabled.
* `admission_sound`: each session is admitted once, and only what may run is started.
-/

namespace ArcRelay.ExtractQueue

open Memory History List Option Bool

/-! ### The gates -/

/-- The columns of a session that the extractor keeps. -/
structure Progress where
  extractedThroughMsgID : Option ℕ := none
  extractAttempts : ℤ := 0
  lastExtractAttemptAt : Option ℤ := none

structure Store where
  db : DB
  progress : String → Progress := fun _ => {}

/-- The gate of automatic extraction; durations are in seconds. -/
structure EligibilityConfig where
  platforms : List String := ["claude-code"]
  maxAge : ℤ := 30 * 24 * 3600
  quietPeriod : ℤ := 60
  backoff : ℤ × ℤ × ℤ := (5 * 60, 30 * 60, 2 * 3600)

def EligibilityConfig.backoffAfter (cfg : EligibilityConfig) (attempts : ℤ) : ℤ :=
  if attempts = 1 then cfg.backoff.1
  else if attempts = 2 then cfg.backoff.2.1
  else cfg.backoff.2.2

/-- The condition on a row of `memory_sessions`. -/
def EligibilityConfig.where_ (cfg : EligibilityConfig) (now : ℤ) (store : Store) (s : Session) :
    Bool :=
  let p := store.progress s.sessionID
  !s.isSubagent &&
  decide (s.platform ∈ cfg.platforms) &&
  s.lastActivityAt.any (fun t => now - cfg.maxAge ≤ t) &&
  s.lastIngestedAt.all (fun t => t < now - cfg.quietPeriod) &&
  store.db.messages.any
    (fun m => m.sessionID = s.sessionID ∧ p.extractedThroughMsgID.getD 0 < m.id) &&
  (p.extractAttempts = 0 ||
    p.lastExtractAttemptAt.all (fun t => t + cfg.backoffAfter p.extractAttempts ≤ now))

/-- Some row of the session meets the condition. -/
def isEligibleForAutoExtraction (cfg : EligibilityConfig) (now : ℤ) (store : Store)
    (sessionID : String) : Bool :=
  store.db.sessions.any fun s => cfg.where_ now store s && s.sessionID = sessionID

inductive Mode
  | auto
  | manual

structure QueueItem where
  sessionID : String
  mode : Mode

/-- What a goroutine meets when it moves: the time, whether the database fails, and which
way `select` goes when both are open. -/
structure Outcome where
  now : ℤ := 0
  fails : Bool := false
  done : Bool := false

def admissible (cfg : EligibilityConfig) (store : Store) (o : Outcome) (item : QueueItem) :
    Bool × String :=
  match item.mode with
  | .manual =>
    match if o.fails then none else store.db.session item.sessionID with
    | none => (false, "ineligible:unknown_session")
    | some st => if st.isSubagent then (false, "ineligible:subagent") else (true, "eligible")
  | .auto =>
    if o.fails then (false, "ineligible:error")
    else if isEligibleForAutoExtraction cfg o.now store item.sessionID then (true, "eligible")
    else (false, "ineligible:auto_gate")

def Plain (store : Store) (sessionID : String) : Prop :=
  ∃ row, store.db.session sessionID = some row ∧ row.isSubagent = false

variable {store : Store} {cfg : EligibilityConfig} {o : Outcome} {item : QueueItem}

theorem plain_of_admissible (h : (admissible cfg store o item).1 = true) :
    Plain store item.sessionID := by
  unfold admissible at h
  split at h
  · split at h
    · cases h
    next st hst =>
    split at h
    · cases h
    next hsub =>
    have hrow : store.db.session item.sessionID = some st := by
      split at hst
      · cases hst
      · exact hst
    exact ⟨st, hrow, eq_false_iff.mpr hsub⟩
  · split at h
    · cases h
    split at h
    · next hel =>
      obtain ⟨row, hrow, hrest⟩ := any_eq_true.mp hel
      rw [and_eq_true, decide_eq_true_eq] at hrest
      -- the row of an id is the one a lookup finds, as the id is the key of the table
      have hfind := Table.find_of_mem store.db.ok.sessionKey hrow
      rw [hrest.2] at hfind
      refine ⟨row, hfind, ?_⟩
      have hwhere := hrest.1
      simp only [EligibilityConfig.where_, and_eq_true, not_eq_true'] at hwhere
      exact hwhere.1.1.1.1.1
    · cases h

theorem eligible_of_admissible (h : (admissible cfg store o item).1 = true)
    (hmode : item.mode = .auto) :
    isEligibleForAutoExtraction cfg o.now store item.sessionID = true := by
  rw [admissible, hmode] at h
  dsimp only at h
  split at h
  · cases h
  split at h
  · next hel => exact hel
  · cases h

theorem Plain.ingest {sessionID : String} (h : Plain store sessionID) (svc : Memory.Service)
    (c : IngestCall) : Plain { store with db := (ingest svc store.db c).1 } sessionID := by
  obtain ⟨row, hrow, hsub⟩ := h
  have horigin : store.db.origin sessionID = some row.origin := by
    rw [Tables.origin, hrow]
    rfl
  have hrun := origin_run svc store.db [c] sessionID
  rw [horigin, some_or] at hrun
  obtain ⟨row', hrow', heq⟩ := map_eq_some_iff.mp hrun
  exact ⟨row', hrow', (congrArg Origin.isSubagent heq).trans hsub⟩

/-! ### Goroutines -/

/-- Where a goroutine is: in a call of `Enqueue`, or a worker. -/
inductive Phase
  /-- `Enqueue`: before the gate. -/
  | admitting (item : QueueItem)
  /-- Before `q.mu.Lock()`. -/
  | locking (item : QueueItem)
  /-- With the mutex, before the look into `pending`. -/
  | searching (item : QueueItem)
  /-- With the mutex, before the `select` that sends. -/
  | sending (item : QueueItem)
  | recording (item : QueueItem)
  /-- With the mutex, before `q.mu.Unlock()`. -/
  | unlocking (queued : Bool) (reason : String)
  | returned (queued : Bool) (reason : String)
  /-- A worker: before the `select` that receives. -/
  | waiting
  /-- `run`: before the gate. -/
  | checking (item : QueueItem)
  /-- Through the gate, before `Extract`. -/
  | starting (item : QueueItem)
  /-- In `Extract`. -/
  | extracting (item : QueueItem)
  /-- In the deferred function, before `q.mu.Lock()`. -/
  | finishing (item : QueueItem)
  | deleting (item : QueueItem)
  /-- With the mutex, before `q.mu.Unlock()`. -/
  | leaving
  | exited

namespace Phase

/-- How many statements are left until the mutex is free. -/
def held : Phase → ℕ
  | .searching _ => 4
  | .sending _ => 3
  | .recording _ => 2
  | .unlocking _ _ => 1
  | .deleting _ => 2
  | .leaving => 1
  | _ => 0

/-- How many statements are left of a call of `Enqueue`. -/
def left : Phase → ℕ
  | .admitting _ => 6
  | .locking _ => 5
  | .searching _ => 4
  | .sending _ => 3
  | .recording _ => 2
  | .unlocking _ _ => 1
  | _ => 0

/-- The session a worker has taken from the channel and not yet taken off `pending`. -/
def running : Phase → Option String
  | .checking item | .starting item | .extracting item | .finishing item | .deleting item =>
    some item.sessionID
  | _ => none

/-- The session an `Enqueue` has sent and not yet recorded. -/
def sent : Phase → Option String
  | .recording item => some item.sessionID
  | _ => none

/-- The session `Extract` runs for. -/
def extracts : Phase → Option String
  | .extracting item => some item.sessionID
  | _ => none

end Phase

/-- What the workers do, for the record: the goroutine and its item, and the store the
gate or the start of `Extract` met. -/
inductive Entry
  | dequeued (i : ℕ) (item : QueueItem)
  | passed (i : ℕ) (item : QueueItem) (now : ℤ) (store : Store)
  | started (i : ℕ) (item : QueueItem) (store : Store)

def Entry.goroutine : Entry → ℕ
  | .dequeued i _ => i
  | .passed i _ _ _ => i
  | .started i _ _ => i

structure State where
  store : Store
  ch : List QueueItem := []
  mu : Option ℕ := none
  pending : List String := []
  goroutines : List Phase
  cancelled : Bool := false
  log : List Entry := []

structure QueueConfig where
  workers : ℤ := 2
  capacity : ℤ := 1000
  eligibility : EligibilityConfig := {}

/-- `StartQueue` replaces bounds that are not positive. -/
def QueueConfig.effective (cfg : QueueConfig) : QueueConfig where
  workers := if cfg.workers ≤ 0 then 2 else cfg.workers
  capacity := if cfg.capacity ≤ 0 then 1000 else cfg.capacity
  eligibility := cfg.eligibility

def QueueConfig.room (cfg : QueueConfig) : ℕ := cfg.effective.capacity.toNat

def startQueue (cfg : QueueConfig) (store : Store) : State where
  store := store
  goroutines := replicate cfg.effective.workers.toNat .waiting

def State.goto (s : State) (i : ℕ) (p : Phase) : State :=
  { s with goroutines := s.goroutines.set i p }

/-- The next statement of goroutine `i`, or nothing while it has to wait. -/
def advance (cfg : QueueConfig) (s : State) (i : ℕ) (o : Outcome) : Phase → Option State
  -- `Enqueue`
  | .admitting item =>
    match admissible cfg.eligibility s.store o item with
    | (false, reason) => some (s.goto i (.returned false reason))
    | (true, _) => some (s.goto i (.locking item))
  | .locking item =>
    if s.mu = none then some { s.goto i (.searching item) with mu := some i } else none
  | .searching item =>
    if item.sessionID ∈ s.pending then some (s.goto i (.unlocking false "duplicate"))
    else some (s.goto i (.sending item))
  | .sending item =>
    if s.ch.length < cfg.room then
      some { s.goto i (.recording item) with ch := s.ch ++ [item] }
    else some (s.goto i (.unlocking false "queue_full"))
  | .recording item =>
    some { s.goto i (.unlocking true "eligible") with pending := item.sessionID :: s.pending }
  | .unlocking queued reason => some { s.goto i (.returned queued reason) with mu := none }
  | .returned _ _ => none
  -- `worker` and `run`
  | .waiting =>
    if s.cancelled ∧ o.done then some (s.goto i .exited)
    else
      match s.ch with
      | [] => none
      | item :: rest =>
        some { s.goto i (.checking item) with ch := rest, log := .dequeued i item :: s.log }
  | .checking item =>
    if (admissible cfg.eligibility s.store o item).1 then
      some { s.goto i (.starting item) with log := .passed i item o.now s.store :: s.log }
    else some (s.goto i (.finishing item))
  | .starting item =>
    some { s.goto i (.extracting item) with log := .started i item s.store :: s.log }
  | .extracting item => some (s.goto i (.finishing item))
  | .finishing item =>
    if s.mu = none then some { s.goto i (.deleting item) with mu := some i } else none
  | .deleting item => some { s.goto i .leaving with pending := s.pending.erase item.sessionID }
  | .leaving => some { s.goto i .waiting with mu := none }
  | .exited => none

inductive Event
  /-- A new call of `Enqueue`. -/
  | enqueue (item : QueueItem)
  | move (i : ℕ) (o : Outcome)
  | ingest (c : IngestCall)
  /-- A write to the extraction columns of a session. -/
  | bookkeep (sessionID : String) (p : Progress)
  | cancel

def step (svc : Memory.Service) (cfg : QueueConfig) (s : State) : Event → Option State
  | .enqueue item => some { s with goroutines := s.goroutines ++ [.admitting item] }
  | .move i o => (s.goroutines[i]?).bind (advance cfg s i o)
  | .ingest c => some { s with store := { s.store with db := (ingest svc s.store.db c).1 } }
  | .bookkeep sessionID p =>
    some { s with store :=
      { s.store with progress := fun sid => if sid = sessionID then p else s.store.progress sid } }
  | .cancel => some { s with cancelled := true }

/-- A sequence of events; one that is not enabled does not happen. -/
def run (svc : Memory.Service) (cfg : QueueConfig) (s : State) (events : List Event) : State :=
  events.foldl (fun s e => (step svc cfg s e).getD s) s

/-! ### The mutex, the channel and the pending set -/

/-- How many statements goroutine `i` is from freeing the mutex; zero if it has it not. -/
def heldBy (gs : List Phase) (i : ℕ) : ℕ := (gs[i]?).elim 0 Phase.held

/-- What has been sent and not yet recorded: only who holds the mutex can be there. -/
def unrecorded (mu : Option ℕ) (gs : List Phase) : Option String :=
  mu.bind fun i => (gs[i]?).bind Phase.sent

/-- How often a session is in the channel or being run. -/
def load (ch : List QueueItem) (gs : List Phase) (sid : String) : ℕ :=
  ch.countP (fun item => item.sessionID = sid) + gs.countP (fun p => p.running = some sid)

/-- What the mutex, the channel and the pending set keep. -/
structure Inv (room : ℕ) (ch : List QueueItem) (mu : Option ℕ) (pending : List String)
    (gs : List Phase) : Prop where
  holder : ∀ i, 0 < heldBy gs i ↔ mu = some i
  counts : ∀ sid, load ch gs sid = pending.count sid + if unrecorded mu gs = some sid then 1 else 0
  once : ∀ sid, load ch gs sid ≤ 1
  fresh : ∀ (i : ℕ) item, gs[i]? = some (Phase.sending item) → item.sessionID ∉ pending
  bounded : ch.length ≤ room

section

variable {room i k : ℕ} {ch : List QueueItem} {mu : Option ℕ} {pending : List String}
  {gs : List Phase} {p p' : Phase}

variable (hp : gs[i]? = some p)

include hp

theorem getElem?_set_of (k : ℕ) : (gs.set i p')[k]? = if k = i then some p' else gs[k]? := by
  grind

theorem getElem?_set_own : (gs.set i p')[i]? = some p' := by
  rw [getElem?_set_of hp, if_pos rfl]

theorem heldBy_of : heldBy gs i = p.held := by
  rw [heldBy, hp]
  rfl

theorem heldBy_set (k : ℕ) : heldBy (gs.set i p') k = if k = i then p'.held else heldBy gs k := by
  rw [heldBy, getElem?_set_of hp]
  split
  · rfl
  · rfl

theorem load_set (ch : List QueueItem) (p' : Phase) (sid : String) :
    load ch (gs.set i p') sid + (if p.running = some sid then 1 else 0) =
      load ch gs sid + (if p'.running = some sid then 1 else 0) := by
  obtain ⟨hi, hget⟩ := List.getElem?_eq_some_iff.mp hp
  have hpos : p.running = some sid → 0 < gs.countP (fun p => p.running = some sid) := fun h =>
    countP_pos_iff.mpr ⟨p, mem_of_getElem? hp, decide_eq_true h⟩
  unfold load
  grind

theorem load_set_eq (ch : List QueueItem) (hrun : p'.running = p.running) (sid : String) :
    load ch (gs.set i p') sid = load ch gs sid := by
  have hset := load_set hp ch p' sid
  rw [hrun] at hset
  exact Nat.add_right_cancel hset

theorem unrecorded_of (hsent : p.sent = none) : unrecorded (some i) gs = none := by
  rw [unrecorded, bind_some, hp]
  exact hsent

theorem unrecorded_set (hmu : mu ≠ some i) : unrecorded mu (gs.set i p') = unrecorded mu gs := by
  cases mu with
  | none => rfl
  | some k =>
    have hk : k ≠ i := fun h => hmu (congrArg some h)
    rw [unrecorded, unrecorded, bind_some, bind_some, getElem?_set_of hp, if_neg hk]

variable (h : Inv room ch mu pending gs)

include h

theorem Inv.mu_eq (hheld : 0 < p.held) : mu = some i := by
  refine (h.holder i).mp ?_
  rw [heldBy_of hp]
  exact hheld

theorem Inv.fresh_set
    (hfresh : ∀ item, p' = .sending item → item.sessionID ∉ pending) (k : ℕ) (item : QueueItem)
    (hk : (gs.set i p')[k]? = some (.sending item)) : item.sessionID ∉ pending := by
  rw [getElem?_set_of hp] at hk
  split at hk
  · exact hfresh item (some.inj hk)
  · exact h.fresh k item hk

theorem Inv.quiet
    (hheld : 0 < p'.held ↔ 0 < p.held) (hrun : p'.running = p.running) (hsent : p.sent = none)
    (hsent' : p'.sent = none) (hfresh : ∀ item, p' = .sending item → item.sessionID ∉ pending) :
    Inv room ch mu pending (gs.set i p') := by
  have hunrec : unrecorded mu (gs.set i p') = unrecorded mu gs := by
    by_cases hmu : mu = some i
    · rw [hmu, unrecorded_of hp hsent, unrecorded_of (getElem?_set_own hp) hsent']
    · exact unrecorded_set hp hmu
  refine ⟨fun k => ?_, fun sid => ?_, fun sid => ?_, h.fresh_set hp hfresh, h.bounded⟩
  · rw [heldBy_set hp]
    split
    · next hki =>
      rw [hheld, ← heldBy_of hp, hki]
      exact h.holder i
    · exact h.holder k
  · rw [load_set_eq hp ch hrun, hunrec]
    exact h.counts sid
  · rw [load_set_eq hp ch hrun]
    exact h.once sid

omit h in
/-- `q.mu.Lock()`. -/
theorem Inv.lock (h : Inv room ch none pending gs) (hheld : 0 < p'.held)
    (hrun : p'.running = p.running) (hsent' : p'.sent = none)
    (hfresh : ∀ item, p' ≠ .sending item) :
    Inv room ch (some i) pending (gs.set i p') := by
  refine ⟨fun k => ?_, fun sid => ?_, fun sid => ?_,
    h.fresh_set hp fun item hp' => absurd hp' (hfresh item), h.bounded⟩
  · rw [heldBy_set hp]
    split
    · next hki =>
      rw [hki]
      exact ⟨fun _ => rfl, fun _ => hheld⟩
    next hki =>
    have hfree := h.holder k
    exact ⟨fun hk => absurd (hfree.mp hk) nofun, fun hk => absurd (some.inj hk).symm hki⟩
  · rw [load_set_eq hp ch hrun, unrecorded_of (getElem?_set_own hp) hsent']
    exact h.counts sid
  · rw [load_set_eq hp ch hrun]
    exact h.once sid

theorem Inv.alone (hheld : 0 < p.held) (hk : k ≠ i) : heldBy gs k = 0 := by
  by_contra hpos
  have hmu := (h.holder k).mp (Nat.pos_of_ne_zero hpos)
  rw [h.mu_eq hp hheld] at hmu
  exact hk (some.inj hmu).symm

theorem Inv.no_sender (hheld : 0 < p.held)
    (hk : (gs.set i p')[k]? = some (.sending item)) (hp' : ∀ item, p' ≠ .sending item) : False := by
  rw [getElem?_set_of hp] at hk
  split at hk
  · exact hp' item (some.inj hk)
  next hki =>
  have hzero := h.alone hp hheld hki
  rw [heldBy_of hk] at hzero
  cases hzero

/-- `q.mu.Unlock()`. -/
theorem Inv.unlock (hheld : 0 < p.held)
    (hrun : p'.running = p.running) (hsent : p.sent = none) (hheld' : p'.held = 0) :
    Inv room ch none pending (gs.set i p') := by
  have hp' : ∀ item, p' ≠ .sending item := by
    rintro item rfl
    cases hheld'
  refine ⟨fun k => ?_, fun sid => ?_, fun sid => ?_,
    fun _ _ hk => (h.no_sender hp hheld hk hp').elim, h.bounded⟩
  · have hzero : heldBy (gs.set i p') k = 0 := by
      rw [heldBy_set hp]
      split
      · exact hheld'
      · next hki => exact h.alone hp hheld hki
    rw [hzero]
    exact ⟨fun h => absurd h (Nat.lt_irrefl 0), nofun⟩
  · have hcount := h.counts sid
    rw [h.mu_eq hp hheld, unrecorded_of hp hsent] at hcount
    rw [load_set_eq hp ch hrun]
    exact hcount
  · rw [load_set_eq hp ch hrun]
    exact h.once sid

theorem Inv.holder_set (hheld : 0 < p.held) (hheld' : 0 < p'.held) (k : ℕ) :
    0 < heldBy (gs.set i p') k ↔ mu = some k := by
  rw [heldBy_set hp]
  split
  · next hki =>
    rw [hki]
    exact ⟨fun _ => h.mu_eq hp hheld, fun _ => hheld'⟩
  · exact h.holder k

omit h hp

/-- The send of `Enqueue`, which finds room. -/
theorem Inv.send (h : Inv room ch mu pending gs) (hp : gs[i]? = some (.sending item))
    (hroom : ch.length < room) :
    Inv room (ch ++ [item]) mu pending (gs.set i (.recording item)) := by
  have hmu := h.mu_eq hp (Nat.succ_pos _)
  have hunrec' : unrecorded mu (gs.set i (.recording item)) = some item.sessionID := by
    rw [hmu, unrecorded, bind_some, getElem?_set_own hp]
    rfl
  have hcounts : ∀ sid, load ch gs sid = pending.count sid := by
    intro sid
    have hcount := h.counts sid
    rw [hmu, unrecorded_of hp rfl] at hcount
    exact hcount
  have hload : ∀ sid, load (ch ++ [item]) (gs.set i (.recording item)) sid =
      load ch gs sid + if item.sessionID = sid then 1 else 0 := by
    intro sid
    have hset := load_set hp (ch ++ [item]) (.recording item) sid
    have happend : load (ch ++ [item]) gs sid =
        load ch gs sid + if item.sessionID = sid then 1 else 0 := by
      simp only [load, countP_append, countP_singleton, decide_eq_true_eq]
      ring
    simp only [Phase.running, reduceCtorEq, if_false] at hset
    omega
  refine ⟨h.holder_set hp (Nat.succ_pos _) (Nat.succ_pos _), fun sid => ?_, fun sid => ?_,
    fun _ _ hk => (h.no_sender hp (Nat.succ_pos _) hk nofun).elim, ?_⟩
  · rw [hload, hunrec', hcounts]
    simp only [some.injEq]
  · rw [hload, hcounts]
    split
    · next hsid => rw [← hsid, count_eq_zero_of_not_mem (h.fresh i item hp)]
    rw [← hcounts]
    exact h.once sid
  · rw [length_append]
    exact hroom

/-- `q.pending[sessionID] = struct{}{}`. -/
theorem Inv.record (h : Inv room ch mu pending gs) (hp : gs[i]? = some (.recording item))
    (queued : Bool) (reason : String) :
    Inv room ch mu (item.sessionID :: pending) (gs.set i (.unlocking queued reason)) := by
  have hmu := h.mu_eq hp (Nat.succ_pos _)
  have hload : ∀ sid, load ch (gs.set i (.unlocking queued reason)) sid = load ch gs sid :=
    load_set_eq hp ch rfl
  refine ⟨h.holder_set hp (Nat.succ_pos _) (Nat.succ_pos _), fun sid => ?_, fun sid => ?_,
    fun _ _ hk => (h.no_sender hp (Nat.succ_pos _) hk nofun).elim, h.bounded⟩
  · have hcount := h.counts sid
    have hunrec : unrecorded mu gs = some item.sessionID := by
      rw [hmu, unrecorded, bind_some, hp]
      rfl
    rw [hunrec] at hcount
    rw [hload, hcount, hmu, unrecorded_of (getElem?_set_own hp) rfl, count_cons]
    simp only [some.injEq, beq_iff_eq, reduceCtorEq, if_false]
    rfl
  · rw [hload]
    exact h.once sid

theorem Inv.receive {rest : List QueueItem} (h : Inv room (item :: rest) mu pending gs)
    (hp : gs[i]? = some .waiting) : Inv room rest mu pending (gs.set i (.checking item)) := by
  have hmu : mu ≠ some i := by
    intro hmu
    have hpos := (h.holder i).mpr hmu
    rw [heldBy_of hp] at hpos
    exact absurd hpos (Nat.lt_irrefl 0)
  -- what leaves the channel is being run
  have hload : ∀ sid, load rest (gs.set i (.checking item)) sid = load (item :: rest) gs sid := by
    intro sid
    have hset := load_set hp rest (.checking item) sid
    have hcons : load (item :: rest) gs sid =
        load rest gs sid + if item.sessionID = sid then 1 else 0 := by
      simp only [load, countP_cons, decide_eq_true_eq]
      ring
    simp only [Phase.running, reduceCtorEq, if_false, some.injEq] at hset
    omega
  refine ⟨fun k => ?_, fun sid => ?_, fun sid => ?_, h.fresh_set hp nofun,
    (Nat.le_succ _).trans h.bounded⟩
  · rw [heldBy_set hp]
    split
    · next hki =>
      rw [hki]
      exact ⟨fun h => absurd h (Nat.lt_irrefl 0), fun h => absurd h hmu⟩
    · exact h.holder k
  · rw [hload, unrecorded_set hp hmu]
    exact h.counts sid
  · rw [hload]
    exact h.once sid

/-- `delete(q.pending, item.sessionID)`. -/
theorem Inv.delete (h : Inv room ch mu pending gs) (hp : gs[i]? = some (.deleting item)) :
    Inv room ch mu (pending.erase item.sessionID) (gs.set i .leaving) := by
  have hmu := h.mu_eq hp (Nat.succ_pos _)
  have hload : ∀ sid, load ch (gs.set i .leaving) sid + (if item.sessionID = sid then 1 else 0) =
      load ch gs sid := by
    intro sid
    have hset := load_set hp ch .leaving sid
    simp only [Phase.running, reduceCtorEq, if_false, some.injEq] at hset
    exact hset
  refine ⟨h.holder_set hp (Nat.succ_pos _) (Nat.succ_pos _), fun sid => ?_, fun sid => ?_,
    fun _ _ hk => (h.no_sender hp (Nat.succ_pos _) hk nofun).elim, h.bounded⟩
  · have hcount := h.counts sid
    rw [hmu, unrecorded_of hp rfl] at hcount
    simp only [reduceCtorEq, if_false] at hcount
    have hset := hload sid
    rw [hmu, unrecorded_of (getElem?_set_own hp) rfl, count_erase]
    simp only [reduceCtorEq, if_false, beq_iff_eq]
    omega
  · have hset := hload sid
    have honce := h.once sid
    omega

theorem Inv.call (h : Inv room ch mu pending gs) (item : QueueItem) :
    Inv room ch mu pending (gs ++ [.admitting item]) := by
  have hheld : ∀ k, heldBy (gs ++ [.admitting item]) k = heldBy gs k := by
    intro k
    rw [heldBy, heldBy, getElem?_append]
    split
    · rfl
    next hlt =>
    rw [getElem?_eq_none (Nat.le_of_not_lt hlt)]
    cases hk : [Phase.admitting item][k - gs.length]? with
    | none => rfl
    | some p =>
      rw [mem_singleton.mp (mem_of_getElem? hk)]
      rfl
  have hunrec : unrecorded mu (gs ++ [.admitting item]) = unrecorded mu gs := by
    cases hmu : mu with
    | none => rfl
    | some k => ?_
    have hpos := (h.holder k).mpr hmu
    have hk : k < gs.length := by
      by_contra hge
      rw [heldBy, getElem?_eq_none (Nat.le_of_not_lt hge)] at hpos
      exact absurd hpos (Nat.lt_irrefl 0)
    rw [unrecorded, unrecorded, bind_some, bind_some, getElem?_append_left hk]
  have hload : ∀ sid, load ch (gs ++ [.admitting item]) sid = load ch gs sid := by
    intro sid
    rw [load, countP_append, countP_singleton]
    rfl
  refine ⟨fun k => ?_, fun sid => ?_, fun sid => ?_, fun k item' hk => ?_, h.bounded⟩
  · rw [hheld]
    exact h.holder k
  · rw [hload, hunrec]
    exact h.counts sid
  · rw [hload]
    exact h.once sid
  · rw [getElem?_append] at hk
    split at hk
    · exact h.fresh k item' hk
    · exact absurd (mem_singleton.mp (mem_of_getElem? hk)) nofun

end

section

variable {svc : Memory.Service} {cfg : QueueConfig} {s s' : State} {i : ℕ} {p : Phase}

def State.Ok (cfg : QueueConfig) (s : State) : Prop :=
  Inv cfg.room s.ch s.mu s.pending s.goroutines

theorem State.Ok.advance (h : s.Ok cfg) (hp : s.goroutines[i]? = some p)
    (hs : advance cfg s i o p = some s') : s'.Ok cfg := by
  cases p with
  | admitting item | checking item =>
    simp only [ExtractQueue.advance] at hs
    split at hs
    · cases hs
      exact h.quiet hp Iff.rfl rfl rfl rfl nofun
    · cases hs
      exact h.quiet hp Iff.rfl rfl rfl rfl nofun
  | locking item | finishing item =>
    simp only [ExtractQueue.advance] at hs
    split at hs
    · next hmu =>
      cases hs
      rw [State.Ok, hmu] at h
      exact h.lock hp (Nat.succ_pos _) rfl rfl nofun
    · cases hs
  | searching item =>
    simp only [ExtractQueue.advance] at hs
    split at hs
    · cases hs
      exact h.quiet hp (iff_of_true (Nat.succ_pos _) (Nat.succ_pos _)) rfl rfl rfl nofun
    next hnew =>
    cases hs
    refine h.quiet hp (iff_of_true (Nat.succ_pos _) (Nat.succ_pos _)) rfl rfl rfl ?_
    intro item' hitem
    rw [← Phase.sending.inj hitem]
    exact hnew
  | sending item =>
    simp only [ExtractQueue.advance] at hs
    split at hs
    · next hroom =>
      cases hs
      exact h.send hp hroom
    · cases hs
      exact h.quiet hp (iff_of_true (Nat.succ_pos _) (Nat.succ_pos _)) rfl rfl rfl nofun
  | recording item =>
    cases hs
    exact h.record hp true "eligible"
  | waiting =>
    simp only [ExtractQueue.advance] at hs
    split at hs
    · cases hs
      exact h.quiet hp Iff.rfl rfl rfl rfl nofun
    split at hs
    · cases hs
    next item rest hch =>
    cases hs
    rw [State.Ok, hch] at h
    exact h.receive hp
  | starting item | extracting item =>
    cases hs
    exact h.quiet hp Iff.rfl rfl rfl rfl nofun
  | deleting item =>
    cases hs
    exact h.delete hp
  | unlocking _ _ | leaving =>
    cases hs
    exact h.unlock hp (Nat.succ_pos _) rfl rfl rfl
  | returned _ _ | exited => cases hs

theorem State.Ok.step (h : s.Ok cfg) {e : Event} (hs : step svc cfg s e = some s') : s'.Ok cfg := by
  cases e with
  | enqueue item =>
    cases hs
    exact Inv.call h item
  | move i o =>
    obtain ⟨p, hp, hadv⟩ := bind_eq_some_iff.mp hs
    exact h.advance hp hadv
  | ingest _ | bookkeep _ _ | cancel =>
    cases hs
    exact h

theorem startQueue_ok (cfg : QueueConfig) (store : Store) : (startQueue cfg store).Ok cfg := by
  have hget : ∀ (i : ℕ) p, (startQueue cfg store).goroutines[i]? = some p → p = .waiting := by
    intro i p hp
    exact eq_of_mem_replicate (mem_of_getElem? hp)
  have hload : ∀ sid, load [] (startQueue cfg store).goroutines sid = 0 := by
    intro sid
    rw [load, countP_nil, Nat.zero_add]
    refine countP_eq_zero.mpr fun p hp => ?_
    rw [eq_of_mem_replicate hp]
    exact false_ne_true
  refine ⟨fun i => ?_, fun sid => ?_, fun sid => ?_, fun i item hi => ?_, Nat.zero_le _⟩
  · refine iff_of_false (fun hpos => ?_) nofun
    rw [heldBy] at hpos
    cases hp : (startQueue cfg store).goroutines[i]? with
    | none =>
      rw [hp] at hpos
      exact absurd hpos (Nat.lt_irrefl 0)
    | some p =>
      rw [hp, hget i p hp] at hpos
      exact absurd hpos (Nat.lt_irrefl 0)
  · exact hload sid
  · rw [show (startQueue cfg store).ch = [] from rfl, hload sid]
    exact Nat.zero_le 1
  · exact absurd (hget i _ hi) nofun

theorem run_invariant {P : State → Prop}
    (hstep : ∀ s s' e, P s → step svc cfg s e = some s' → P s') (h : P s) (events : List Event) :
    P (run svc cfg s events) := by
  induction events generalizing s with
  | nil => exact h
  | cons e events ih => ?_
  refine ih ?_
  dsimp only
  cases hs : ExtractQueue.step svc cfg s e with
  | none => exact h
  | some s' => exact hstep s s' e h hs

/-! ### Nobody waits for long -/

/-- **Who holds the mutex can go on, and soon lets it go.** -/
theorem advance_of_held (cfg : QueueConfig) (o : Outcome) (hp : s.goroutines[i]? = some p)
    (hheld : 0 < p.held) :
    ∃ s', advance cfg s i o p = some s' ∧ heldBy s'.goroutines i < p.held ∧
      (heldBy s'.goroutines i = 0 → s'.mu = none) := by
  have hset : ∀ p', heldBy (s.goroutines.set i p') i = p'.held := by
    intro p'
    rw [heldBy_set hp, if_pos rfl]
  cases p with
  | searching item | sending item =>
    simp only [advance]
    split
    · refine ⟨_, rfl, ?_⟩
      simp [State.goto, hset, Phase.held]
    · refine ⟨_, rfl, ?_⟩
      simp [State.goto, hset, Phase.held]
  | recording _ | unlocking _ _ | deleting _ | leaving =>
    refine ⟨_, rfl, ?_⟩
    simp [State.goto, hset, Phase.held]
  | admitting _ | locking _ | returned _ _ | waiting | checking _ | starting _ | extracting _
  | finishing _ | exited => exact absurd hheld (Nat.lt_irrefl 0)

theorem advance_of_left (cfg : QueueConfig) (o : Outcome) (hp : s.goroutines[i]? = some p)
    (hleft : 0 < p.left) (hlock : ∀ item, p = .locking item → s.mu = none) :
    ∃ s' p', advance cfg s i o p = some s' ∧ s'.goroutines[i]? = some p' ∧ p'.left < p.left ∧
      (p'.left = 0 → ∃ queued reason, p' = .returned queued reason) := by
  have hset : ∀ p', (s.goroutines.set i p')[i]? = some p' := fun _ => getElem?_set_own hp
  cases p with
  | admitting item =>
    simp only [advance]
    split
    · exact ⟨_, _, rfl, hset _, Nat.succ_pos _, fun _ => ⟨_, _, rfl⟩⟩
    · exact ⟨_, _, rfl, hset _, Nat.lt_succ_self _, nofun⟩
  | locking item =>
    simp only [advance, if_pos (hlock item rfl)]
    exact ⟨_, _, rfl, hset _, Nat.lt_succ_self _, nofun⟩
  | searching item =>
    simp only [advance]
    split
    · exact ⟨_, _, rfl, hset _, Nat.lt_add_of_pos_left (Nat.succ_pos _), nofun⟩
    · exact ⟨_, _, rfl, hset _, Nat.lt_succ_self _, nofun⟩
  | sending item =>
    simp only [advance]
    split
    · exact ⟨_, _, rfl, hset _, Nat.lt_succ_self _, nofun⟩
    · exact ⟨_, _, rfl, hset _, Nat.lt_add_of_pos_left (Nat.succ_pos _), nofun⟩
  | recording item => exact ⟨_, _, rfl, hset _, Nat.lt_succ_self _, nofun⟩
  | unlocking queued reason => exact ⟨_, _, rfl, hset _, Nat.lt_succ_self _, fun _ => ⟨_, _, rfl⟩⟩
  | returned _ _ | waiting | checking _ | starting _ | extracting _ | finishing _ | deleting _
  | leaving | exited => exact absurd hleft (Nat.lt_irrefl 0)

/-- A call of `Enqueue` can go on towards its answer, or it waits for the mutex alone; then
who holds the mutex can go on, whatever it meets, and frees it within four statements. -/
def Unblocked (svc : Memory.Service) (cfg : QueueConfig) (s : State) : Prop :=
  ∀ i p, s.goroutines[i]? = some p → 0 < p.left →
    (∀ o, ∃ s' p', step svc cfg s (.move i o) = some s' ∧ s'.goroutines[i]? = some p' ∧
      p'.left < p.left ∧ (p'.left = 0 → ∃ queued reason, p' = .returned queued reason)) ∨
    ∃ item k, p = .locking item ∧ s.mu = some k ∧ heldBy s.goroutines k ≤ 4 ∧
      ∀ o, ∃ s', step svc cfg s (.move k o) = some s' ∧
        heldBy s'.goroutines k < heldBy s.goroutines k ∧
        (heldBy s'.goroutines k = 0 → s'.mu = none)

theorem Phase.held_le (p : Phase) : p.held ≤ 4 := by
  cases p <;> simp [Phase.held]

theorem State.Ok.unblocked (h : s.Ok cfg) : Unblocked svc cfg s := by
  intro i p hp hleft
  by_cases hlock : ∀ item, p = .locking item → s.mu = none
  · refine .inl fun o => ?_
    obtain ⟨s', p', hadv, hrest⟩ := advance_of_left cfg o hp hleft hlock
    refine ⟨s', p', ?_, hrest⟩
    rw [ExtractQueue.step, hp, bind_some]
    exact hadv
  push Not at hlock
  obtain ⟨item, hitem, hmu⟩ := hlock
  obtain ⟨k, hk⟩ := ne_none_iff_exists'.mp hmu
  refine .inr ⟨item, k, hitem, hk, ?_⟩
  have hpos := (h.holder k).mpr hk
  cases hq : s.goroutines[k]? with
  | none =>
    rw [heldBy, hq] at hpos
    exact absurd hpos (Nat.lt_irrefl 0)
  | some q => ?_
  rw [heldBy_of hq] at hpos ⊢
  refine ⟨q.held_le, fun o => ?_⟩
  obtain ⟨s', hadv, hrest⟩ := advance_of_held cfg o hq hpos
  refine ⟨s', ?_, hrest⟩
  rw [ExtractQueue.step, hq, bind_some]
  exact hadv

end

/-! ### What may be started -/

/-- The newest entries of a worker say that it took the item and that the item then passed
the gate of its mode. -/
def Cleared (cfg : EligibilityConfig) (i : ℕ) (item : QueueItem) (mine : List Entry) : Prop :=
  ∃ now store rest, mine = .passed i item now store :: .dequeued i item :: rest ∧
    (item.mode = .auto → isEligibleForAutoExtraction cfg now store item.sessionID = true)

/-- `Extract` starts for a session that is not a subagent's, after the gate. -/
def Started (cfg : EligibilityConfig) : Entry → List Entry → Prop
  | .started i item store, earlier =>
    Plain store item.sessionID ∧ Cleared cfg i item (own Entry.goroutine i earlier)
  | _, _ => True

def Past (cfg : EligibilityConfig) (store : Store) (i : ℕ) (mine : List Entry) : Phase → Prop
  | .checking item => ∃ rest, mine = .dequeued i item :: rest
  | .starting item => Plain store item.sessionID ∧ Cleared cfg i item mine
  | _ => True

structure Traced (cfg : EligibilityConfig) (store : Store) (gs : List Phase) (log : List Entry) :
    Prop where
  past : ∀ (i : ℕ) p, gs[i]? = some p → Past cfg store i (own Entry.goroutine i log) p
  started : Always (Started cfg) log

section

variable {svc : Memory.Service} {gs : List Phase} {log : List Entry} {i : ℕ} {p p' : Phase}

variable (h : Traced cfg store gs log)

include h

theorem Traced.goto (hp : gs[i]? = some p)
    (hpast : ∀ mine, Past cfg store i mine p') : Traced cfg store (gs.set i p') log := by
  refine ⟨fun k q hk => ?_, h.started⟩
  rw [getElem?_set_of hp] at hk
  split at hk
  · next hki =>
    rw [← some.inj hk, hki]
    exact hpast _
  · exact h.past k q hk

theorem Traced.note (hp : gs[i]? = some p) {e : Entry}
    (he : e.goroutine = i) (hstarted : Started cfg e log)
    (hpast : Past cfg store i (e :: own Entry.goroutine i log) p') :
    Traced cfg store (gs.set i p') (e :: log) := by
  refine ⟨fun k q hk => ?_, hstarted, h.started⟩
  rw [getElem?_set_of hp] at hk
  split at hk
  · next hki =>
    have hmine : own Entry.goroutine i (e :: log) = e :: own Entry.goroutine i log :=
      filter_cons_of_pos (decide_eq_true he)
    rw [← some.inj hk, hki, hmine]
    exact hpast
  · next hki =>
    rw [own_cons fun hek => hki (hek.symm.trans he)]
    exact h.past k q hk

theorem Traced.change {store' : Store} (hplain : ∀ sid, Plain store sid → Plain store' sid) :
    Traced cfg store' gs log := by
  refine ⟨fun i p hp => ?_, h.started⟩
  have hpast := h.past i p hp
  cases p with
  | starting item => exact ⟨hplain _ hpast.1, hpast.2⟩
  | _ => exact hpast

theorem Traced.call (item : QueueItem) : Traced cfg store (gs ++ [.admitting item]) log := by
  refine ⟨fun k q hk => ?_, h.started⟩
  rw [getElem?_append] at hk
  split at hk
  · exact h.past k q hk
  rw [mem_singleton.mp (mem_of_getElem? hk)]
  exact trivial

end

section

variable {svc : Memory.Service} {cfg : QueueConfig} {s s' : State} {i : ℕ} {p : Phase}

theorem traced_advance (h : Traced cfg.eligibility s.store s.goroutines s.log)
    (hp : s.goroutines[i]? = some p) (hs : advance cfg s i o p = some s') :
    Traced cfg.eligibility s'.store s'.goroutines s'.log := by
  have hpast := h.past i p hp
  cases p with
  | waiting =>
    simp only [advance] at hs
    split at hs
    · cases hs
      exact h.goto hp fun _ => trivial
    split at hs
    · cases hs
    cases hs
    exact h.note hp rfl trivial ⟨_, rfl⟩
  | checking item =>
    simp only [advance] at hs
    split at hs
    · next hok =>
      cases hs
      obtain ⟨rest, hmine⟩ := hpast
      refine h.note hp rfl trivial ⟨plain_of_admissible hok, o.now, s.store, rest, ?_,
        eligible_of_admissible hok⟩
      rw [hmine]
    · cases hs
      exact h.goto hp fun _ => trivial
  | starting item =>
    cases hs
    exact h.note hp rfl hpast trivial
  | admitting item | searching item | sending item =>
    simp only [advance] at hs
    split at hs
    · cases hs
      exact h.goto hp fun _ => trivial
    · cases hs
      exact h.goto hp fun _ => trivial
  | locking item | finishing item =>
    simp only [advance] at hs
    split at hs
    · cases hs
      exact h.goto hp fun _ => trivial
    · cases hs
  | recording _ | unlocking _ _ | extracting _ | deleting _ | leaving =>
    cases hs
    exact h.goto hp fun _ => trivial
  | returned _ _ | exited => cases hs

theorem traced_step (h : Traced cfg.eligibility s.store s.goroutines s.log) {e : Event}
    (hs : step svc cfg s e = some s') :
    Traced cfg.eligibility s'.store s'.goroutines s'.log := by
  cases e with
  | enqueue item =>
    cases hs
    exact h.call item
  | move i o =>
    obtain ⟨p, hp, hadv⟩ := bind_eq_some_iff.mp hs
    exact traced_advance h hp hadv
  | ingest c =>
    cases hs
    exact h.change fun _ hplain => hplain.ingest svc c
  | bookkeep sessionID p =>
    cases hs
    exact h.change fun _ hplain => hplain
  | cancel =>
    cases hs
    exact h

theorem startQueue_traced (cfg : QueueConfig) (store : Store) :
    Traced cfg.eligibility store (startQueue cfg store).goroutines [] := by
  refine ⟨fun i p hp => ?_, trivial⟩
  rw [eq_of_mem_replicate (mem_of_getElem? hp)]
  exact trivial

end

/-! ### The queue -/

/-- The sessions in the channel and those being run, one by one. -/
def State.underway (s : State) : List String :=
  s.ch.map (·.sessionID) ++ s.goroutines.filterMap Phase.running

def State.extracting (s : State) : List String := s.goroutines.filterMap Phase.extracts

theorem count_filterMap (f : Phase → Option String) (gs : List Phase) (sid : String) :
    (gs.filterMap f).count sid = gs.countP fun p => f p = some sid := by
  rw [List.count, countP_filterMap]
  refine countP_congr fun p _ => ?_
  cases f p with
  | none | some _ => simp

theorem count_underway (s : State) (sid : String) :
    s.underway.count sid = load s.ch s.goroutines sid := by
  rw [State.underway, count_append, count_filterMap, load, List.count, countP_map]
  rfl

theorem count_extracting_le (s : State) (sid : String) :
    s.extracting.count sid ≤ load s.ch s.goroutines sid := by
  rw [State.extracting, count_filterMap, load]
  refine (countP_mono_left fun p _ hp => ?_).trans (Nat.le_add_left _ _)
  cases p with
  | extracting item => exact hp
  | _ => cases hp

theorem QueueConfig.effective_capacity_pos (cfg : QueueConfig) : 0 < cfg.effective.capacity := by
  rw [effective]
  dsimp only
  split
  · exact Int.natCast_pos.mpr (Nat.succ_pos _)
  · next hpos => exact Int.not_le.mp hpos

/-- **The queue admits each session once and starts only what may run**, over every
sequence of events, in every store.  The pending sessions are those in the channel or being
run, as anyone sees them who has the mutex or finds it free: only between the send and the
record of one `Enqueue`, within its critical section, the session just sent is missing. -/
theorem admission_sound (svc : Memory.Service) (cfg : QueueConfig) (store : Store)
    (events : List Event) :
    let s := run svc cfg (startQueue cfg store) events
    (∀ sid, sid ∈ s.underway ↔ sid ∈ s.pending ∨ unrecorded s.mu s.goroutines = some sid) ∧
      (s.mu = none → ∀ sid, sid ∈ s.pending ↔ sid ∈ s.underway) ∧
      s.pending.Nodup ∧ s.underway.Nodup ∧
      (s.ch.length : ℤ) ≤ cfg.effective.capacity ∧
      Unblocked svc cfg s ∧
      s.extracting.Nodup ∧
      ∀ i item st earlier, .started i item st :: earlier <:+ s.log →
        Plain st item.sessionID ∧
          Cleared cfg.eligibility i item (own Entry.goroutine i earlier) := by
  intro s
  have hok : s.Ok cfg :=
    run_invariant (fun _ _ _ h hs => h.step hs) (startQueue_ok cfg store) events
  have htraced : Traced cfg.eligibility s.store s.goroutines s.log :=
    run_invariant (P := fun s => Traced cfg.eligibility s.store s.goroutines s.log)
      (fun _ _ _ h hs => traced_step h hs) (startQueue_traced cfg store) events
  have hunderway : ∀ sid,
      sid ∈ s.underway ↔ sid ∈ s.pending ∨ unrecorded s.mu s.goroutines = some sid := by
    intro sid
    rw [← count_pos_iff, count_underway, hok.counts sid, ← count_pos_iff]
    split
    · next hsent => exact iff_of_true (Nat.succ_pos _) (.inr hsent)
    · next hsent => exact ⟨.inl, fun h => h.resolve_right hsent⟩
  refine ⟨hunderway, fun hmu sid => ?_, ?_, ?_, ?_, hok.unblocked, ?_, ?_⟩
  · rw [hunderway, hmu]
    exact ⟨.inl, fun h => h.resolve_right nofun⟩
  · refine nodup_iff_count_le_one.mpr fun sid => ?_
    exact (Nat.le_add_right _ _).trans ((hok.counts sid).symm.le.trans (hok.once sid))
  · refine nodup_iff_count_le_one.mpr fun sid => ?_
    rw [count_underway]
    exact hok.once sid
  · rw [← Int.toNat_of_nonneg cfg.effective_capacity_pos.le]
    exact Int.ofNat_le.mpr hok.bounded
  · refine nodup_iff_count_le_one.mpr fun sid => ?_
    exact (count_extracting_le s sid).trans (hok.once sid)
  · intro i item st earlier hlog
    exact (htraced.started.suffix hlog).1

end ArcRelay.ExtractQueue
