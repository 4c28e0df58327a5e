import ArcRelay.Memory.Extraction
import ArcRelay.Memory.Chunking

/-!
# What repeated passes cost and what they give up

A pass that fails is tried again.  Two things keep this from going wrong: a message that
the backend took is not sent again, because its uuid is recorded, and a message is not
given up before it has failed often enough, because failed passes are counted.

Both hold only in part.  The deadline of a pass is looked at between the call and the
insert of its row, so a call that succeeds just before the deadline is not recorded and
its messages are sent again.  And the count belongs to the session, not to the window: a
message that came in after three failed passes is given up with the fourth, and passes
that ran into the deadline before they made a call count like any other.

* `Abandonment.Whole`: the condition on the passes before a range is given up.
* `sent_at_most_once`, `sent_twice`: messages sent again.
* `given_up_after_tries`, `given_up_untried`: messages given up.
-/

namespace ArcRelay.Extract

open Interleave Json Memory List

/-- The state after a run from the start. -/
def after (svc : Service) (cfg : Config) (n : ℕ) (sched : List (Event WorldEvent Env)) : State :=
  ((start cfg n).exec (world svc) sched).state

/-! ### Runs -/

/-- Every message is eligible. -/
def keepAll : Config where
  sessionID := "s"
  keep _ := true
  toUpper := id

/-- Everything succeeds. -/
def calm : Env := ⟨none, none, true, none, .ok ["memory"], 0⟩

/-- The context has expired. -/
def late : Env := { calm with ctxErr := some "context deadline exceeded" }

/-- The memory service refuses. -/
def refusing : Env := { calm with call := .error "mem0: 400" }

/-- So many steps of the worker. -/
def steps (n : ℕ) (e : Env) : List (Event WorldEvent Env) := replicate n (.run 0 e)

/-- A message is ingested. -/
def ingestOne (uuid : String) : Event WorldEvent Env :=
  .env (.ingest (sending (utf8 ("\x7b\"type\":\"user\",\"uuid\":\"" ++ uuid ++
    "\",\"message\":\x7b\"role\":\"user\"," ++
    "\"content\":\"we keep the retry limit at four\"\x7d\x7d\n"))))

/-! ### A message is sent once -/

/-- **No message is sent twice**, in every run of passes and ingests and whatever fails, as
long as each success is recorded: the insert of its row does not fail, and the deadline of
the pass does not come between the call and the insert. -/
theorem sent_at_most_once (svc : Service) (cfg : Config) (n : ℕ)
    (sched : List (Event WorldEvent Env))
    (hinsert : ∀ c, (c, Loss.insert) ∉ (after svc cfg n sched).lost)
    (hdeadline : ∀ c, (c, Loss.deadline) ∉ (after svc cfg n sched).lost)
    (uuid : String) (huuid : uuid ≠ "") :
    times uuid (successes (after svc cfg n sched).log) ≤ 1 := by
  have hlost : (after svc cfg n sched).lost = [] := by
    refine eq_nil_iff_forall_not_mem.mpr fun ⟨c, why⟩ hmem => ?_
    cases why with
    | deadline => exact hdeadline c hmem
    | insert => exact hinsert c hmem
  have honce := (inv_exec svc cfg n sched).once uuid huuid
  have hforgotten : (after svc cfg n sched).forgotten = [] := by
    rw [State.forgotten, hlost, map_nil]
  change _ ≤ times uuid (after svc cfg n sched).forgotten + 1 at honce
  rw [hforgotten] at honce
  exact honce

/-- A message is refused once, then accepted. -/
def retried : List (Event WorldEvent Env) := [ingestOne "a"] ++ steps 14 refusing ++ steps 14 calm

theorem sent_at_most_once_retried :
    times "a" (successes (after plainService keepAll 2 retried).log) = 1 := by
  obtain ⟨hlost, hge⟩ : (after plainService keepAll 2 retried).lost = [] ∧
      1 ≤ times "a" (successes (after plainService keepAll 2 retried).log) := by decide +kernel
  have hle := sent_at_most_once plainService keepAll 2 retried
    (fun c => by rw [hlost]; exact not_mem_nil)
    (fun c => by rw [hlost]; exact not_mem_nil) "a" (by decide)
  exact le_antisymm hle hge

/-- **The deadline makes a pass forget a success**: the call returns, the deadline comes,
and the next pass sends the message again.  No statement fails. -/
theorem sent_twice :
    times "a" (successes (after plainService keepAll 2
      ([ingestOne "a"] ++ steps 11 calm ++ steps 1 late ++ steps 15 calm)).log) = 2 := by
  decide +kernel

/-! ### What is given up -/

theorem taken_iff {cfg : Config} {log : List Entry} {m : Message} :
    Taken cfg log m ↔ ∃ c ∈ successes log, truncateOversized cfg.maxMessageChars m ∈ c.msgs := by
  have hmem : ∀ c, (∃ ids, .called c (.ok ids) ∈ log) ↔ c ∈ successes log := by
    intro c
    induction log with
    | nil => simp [successes]
    | cons e log ih => ?_
    cases e with
    | called c' answer => cases answer <;> simp [successes, taken, exists_or, ih]
    | poisoned lo hi => simp [successes, ih]
  unfold Taken
  simp only [← hmem, exists_and_right]

/-- The pass has sent the message. -/
def Attempted (cfg : Config) (m : Message) (p : Pass) : Prop :=
  m ∈ p.fresh ∧ ∃ c ∈ chunksOf cfg p.fresh, c ∈ p.calls ∧
    truncateOversized cfg.maxMessageChars m ∈ c.msgs

/-- The windows of the failed passes reached to the end of the range that was given up, and
no end of a context or error of the rate limiter came into them. -/
def Abandonment.Whole (a : Abandonment) : Prop :=
  ∀ p ∈ a.passes, a.through ≤ p.through ∧ p.cut = false

instance (a : Abandonment) : Decidable a.Whole :=
  inferInstanceAs (Decidable (∀ p ∈ a.passes, _))

/-- **What is given up has kept failing**: a message below the watermark that the filter
keeps and no call has sent lies in a range that was given up, and if the failed passes
counted for that range were over all of it and were not cut, the message was in each of
them, with a call attempted for its chunk, and they were enough. -/
theorem given_up_after_tries (svc : Service) (cfg : Config) (n : ℕ)
    (sched : List (Event WorldEvent Env))
    (hwhole : ∀ a ∈ (after svc cfg n sched).abandoned, a.Whole) {t : ℕ} {m : Message}
    (ht : t ∈ (after svc cfg n sched).extractedThrough)
    (hm : m ∈ (after svc cfg n sched).db.messages) (hsid : m.sessionID = cfg.sessionID)
    (hid : m.id ≤ t) (hkeep : cfg.keep m = true)
    (hsent : ¬ Taken cfg (after svc cfg n sched).log m) :
    ∃ a ∈ (after svc cfg n sched).abandoned, a.after < m.id ∧ m.id ≤ a.through ∧
      cfg.poisonAfter ≤ a.passes.length ∧ ∀ p ∈ a.passes, Attempted cfg m p := by
  have hinv : Inv cfg (after svc cfg n sched) := inv_exec svc cfg n sched
  have hours : Ours cfg (after svc cfg n sched).db m := ⟨hm, hsid⟩
  rcases hinv.accounted ht hours hid with hdrop | htaken | ⟨lo, hi, hpoison, hlo, hhi⟩
  · rw [hkeep] at hdrop
    cases hdrop
  · exact absurd htaken hsent
  obtain ⟨a, ha, rfl, rfl⟩ := hinv.poisoned lo hi hpoison
  obtain ⟨hlen, htried⟩ := hinv.abandoned a ha
  refine ⟨a, ha, hlo, hhi, hlen, fun p hp => ?_⟩
  obtain ⟨hend, hcut⟩ := hwhole a ha p hp
  have hcalls : ∀ c ∈ chunksOf cfg p.fresh, c ∈ p.calls := by
    refine hinv.reached p (mem_append_right _ ?_) hcut
    exact mem_flatMap.mpr ⟨a, ha, hp⟩
  have hfresh : m ∈ p.fresh :=
    ((htried p hp).all m hours hkeep hlo (hhi.trans hend)).resolve_left hsent
  have hmem : truncateOversized cfg.maxMessageChars m ∈
      p.fresh.map (truncateOversized cfg.maxMessageChars) := mem_map_of_mem hfresh
  obtain ⟨c, hc, hin⟩ := (mem_chunkMessages cfg.toUpper cfg.chunkTarget _ _).mpr hmem
  exact ⟨hfresh, c, hc, hcalls c hc, hin⟩

/-- A message is refused in every attempt. -/
def refused : List (Event WorldEvent Env) := [ingestOne "a"] ++ steps 57 refusing

def firstMessage : Message where
  id := 1
  uuid := "a"
  sessionID := "s"
  parentUUID := ""
  epoch := 0
  timestamp := ""
  role := "user"
  content := utf8 "we keep the retry limit at four"
  platform := "claude-code"

theorem given_up_after_tries_refused :
    ∃ a ∈ (after plainService keepAll 4 refused).abandoned, a.after < 1 ∧ 1 ≤ a.through ∧
      4 ≤ a.passes.length ∧ ∀ p ∈ a.passes, Attempted keepAll firstMessage p := by
  obtain ⟨hwhole, hmark, hstored, hnone⟩ :
      (∀ a ∈ (after plainService keepAll 4 refused).abandoned, a.Whole) ∧
        1 ∈ (after plainService keepAll 4 refused).extractedThrough ∧
        firstMessage ∈ (after plainService keepAll 4 refused).db.messages ∧
        successes (after plainService keepAll 4 refused).log = [] := by
    decide +kernel
  have hsent : ¬ Taken keepAll (after plainService keepAll 4 refused).log firstMessage := by
    rw [taken_iff, hnone]
    simp
  obtain ⟨a, ha, hlo, hhi, hlen, hall⟩ := given_up_after_tries plainService keepAll 4 refused
    hwhole hmark hstored rfl (by decide) rfl hsent
  exact ⟨a, ha, hlo, hhi, Int.ofNat_le.mp hlen, hall⟩

/-- A second message arrives between two attempts. -/
def joined : List (Event WorldEvent Env) :=
  [ingestOne "a"] ++ steps 42 refusing ++ [ingestOne "b"] ++ steps 15 refusing

/-- Every attempt runs out of time. -/
def delayed : List (Event WorldEvent Env) := [ingestOne "a"] ++ steps 40 late

/-- **Messages are given up untried**: one that came in before the fourth failing pass was
in that pass only, and passes that meet their deadline first make no call at all. -/
theorem given_up_untried :
    ((after plainService keepAll 4 joined).extractedThrough = some 2 ∧
      successes (after plainService keepAll 4 joined).log = [] ∧
      (after plainService keepAll 4 joined).abandoned.map
        (fun a => a.passes.map fun p => p.fresh.map (·.id)) = [[[1, 2], [1], [1], [1]]]) ∧
    (after plainService keepAll 4 delayed).extractedThrough = some 1 ∧
      successes (after plainService keepAll 4 delayed).log = [] ∧
      (after plainService keepAll 4 delayed).abandoned.map
        (fun a => a.passes.map fun p => p.calls) = [[[], [], [], []]] := by
  decide +kernel

end ArcRelay.Extract
