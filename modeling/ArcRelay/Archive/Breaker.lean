import ArcRelay.Archive.Outline
import ArcRelay.Lib.History

/-!
# The circuit breaker of the archive dispatcher

The loop, test deliveries and administrators all change the breaker, and the request of
the loop runs outside its mutex.  Still the breaker keeps its discipline: closed it has
counted fewer failures than the threshold, open it lets no request start, and half-open it
lets one request start, whose result closes it or opens it again for longer.

The log has every step on the breaker, so the discipline is stated of the log: of each
moment of the run, that is of each suffix of the log.  A `phase` is what was noted since the
breaker last changed its state.

* `Disciplined`: what the breaker promises at each moment of a run.
* `breaker_disciplined`: it keeps its promise.
-/

namespace ArcRelay.Archive

open Interleave Json History List Nat

/-! ### The breaker in the log -/

def circuitOf : List Entry → Circuit
  | [] => {}
  | .breaker _ _ after :: _ => after
  | _ :: log => circuitOf log

def phase : List Entry → List Entry
  | [] => []
  | .breaker cause before after :: log =>
    if before.cbState = after.cbState then .breaker cause before after :: phase log else []
  | e :: log => e :: phase log

def posts : List Entry → List ℕ
  | [] => []
  | .posted id _ :: log => id :: posts log
  | _ :: log => posts log

def succeeded : List Entry → Bool
  | [] => false
  | .answered _ _ _ status :: log => status < 300 || succeeded log
  | _ :: log => succeeded log

def Entry.plain : Entry → Bool
  | .posted _ _ | .answered _ _ _ _ | .breaker _ _ _ => false
  | _ => true

def pauseOf (level : ℕ) : ℤ := (cbPauseDurations[min level 2]?).getD 0

/-- A closed breaker has counted too few failures to open and has no level to go back to. -/
structure Circuit.Sound (c : Circuit) : Prop where
  closed : c.cbState = .closed → c.consecutiveFails < cbFailThreshold ∧ c.cbPauseLevel = 0
  level : c.cbPauseLevel ≤ 2

def Allowed : Entry → List Entry → Prop
  | .posted _ _, log =>
    (circuitOf log).cbState ≠ .opened ∧
      ((circuitOf log).cbState = .halfOpen → posts (phase log) = [])
  | .breaker (.check now) before after, log => before = circuitOf log ∧ after = (before.check now).1
  | .breaker (.settle id ok now) before after, log =>
    before = circuitOf log ∧ after = (before.settle now ok).1 ∧
      (before.cbState = .halfOpen →
        (∀ id' ∈ posts (phase log), id' = id) ∧ succeeded (phase log) = ok)
  | .breaker .reset before after, log => before = circuitOf log ∧ after = resetCircuit before
  | _, _ => True

/-- What the breaker promises at the moment a log ends. -/
structure Disciplined (log : List Entry) : Prop where
  sound : (circuitOf log).Sound
  shut : ∀ id url log', log = .posted id url :: log' → (circuitOf log').cbState ≠ .opened
  /-- It leaves the open state when somebody resets it, or to half-open when the pause of
  its level is over. -/
  pause : ∀ cause before after log', log = .breaker cause before after :: log' →
    before.cbState = .opened → after.cbState ≠ .opened →
    cause = .reset ∨ ∃ now, cause = .check now ∧ after = { before with cbState := .halfOpen } ∧
      pauseOf before.cbPauseLevel ≤ now - before.cbOpenedAt
  /-- One POST at most is started while it is half-open. -/
  probe : (circuitOf log).cbState = .halfOpen → (posts (phase log)).length ≤ 1
  /-- It leaves the half-open state when somebody resets it, or by the result of the
  delivery whose POST was started: to closed when an endpoint has answered below 300, else
  to open with the next level. -/
  decided : ∀ cause before after log', log = .breaker cause before after :: log' →
    before.cbState = .halfOpen → after.cbState ≠ .halfOpen →
    (cause = .reset ∧ after.cbState = .closed) ∨
      ∃ id now, cause = .settle id (succeeded (phase log')) now ∧
        (∀ id' ∈ posts (phase log'), id' = id) ∧
        if succeeded (phase log') then after.cbState = .closed ∧ after.cbPauseLevel = 0
        else after.cbState = .opened ∧ after.cbOpenedAt = now ∧
          after.cbPauseLevel = min (before.cbPauseLevel + 1) 2

/-! ### The steps of the breaker -/

section

variable {c : Circuit} (now : ℤ) (ok : Bool)

theorem check_cases (c : Circuit) :
    (c.check now = (c, true) ∧ c.cbState ≠ .opened) ∨
      c.cbState = .opened ∧ (c.check now = (c, false) ∨
        c.check now = ({ c with cbState := .halfOpen }, true) ∧
          pauseOf c.cbPauseLevel ≤ now - c.cbOpenedAt) := by
  unfold Circuit.check
  cases hstate : c.cbState with
  | closed | halfOpen => simp
  | opened => ?_
  dsimp only
  split
  · next hpause => exact .inr ⟨rfl, .inr ⟨rfl, hpause⟩⟩
  · exact .inr ⟨rfl, .inl rfl⟩

theorem settle_halfOpen (h : c.cbState = .halfOpen) (hlevel : c.cbPauseLevel ≤ 2) :
    c.settle now ok = if ok then
      ({ c with consecutiveFails := 0, cbState := .closed, cbPauseLevel := 0 }, true)
    else
      ({ consecutiveFails := c.consecutiveFails + 1, cbState := .opened, cbOpenedAt := now
         cbPauseLevel := min (c.cbPauseLevel + 1) 2 }, false) := by
  have hnext : (if c.cbPauseLevel < 2 then c.cbPauseLevel + 1 else c.cbPauseLevel) =
      min (c.cbPauseLevel + 1) 2 := by
    split <;> omega
  unfold Circuit.settle
  rw [if_pos h, if_pos h, hnext]

theorem settle_closed (h : c.cbState = .closed) :
    (c.settle now ok).1.cbPauseLevel = c.cbPauseLevel ∧
      ((c.settle now ok).2 = true ∧ (c.settle now ok).1.cbState = .closed ∧
          (c.settle now ok).1.consecutiveFails < cbFailThreshold ∨
        (c.settle now ok).2 = false ∧ (c.settle now ok).1.cbState = .opened) := by
  cases ok with
  | true => simp [Circuit.settle, h, cbFailThreshold]
  | false => ?_
  by_cases hmany : cbFailThreshold ≤ c.consecutiveFails + 1
  · simp [Circuit.settle, h, hmany]
  simp only [Circuit.settle, h, hmany]
  simp
  omega

theorem settle_opened (h : c.cbState = .opened) :
    (c.settle now ok).1.cbState = .opened ∧ (c.settle now ok).1.cbPauseLevel = c.cbPauseLevel := by
  cases ok with
  | true => simp [Circuit.settle, h]
  | false => ?_
  by_cases hmany : cbFailThreshold ≤ c.consecutiveFails + 1
  · simp [Circuit.settle, h, hmany]
  · simp [Circuit.settle, h, hmany]

theorem settle_next (h : c.cbState ≠ .opened) (hlevel : c.cbPauseLevel ≤ 2) :
    (c.settle now ok).1.cbState = if (c.settle now ok).2 then .closed else .opened := by
  cases hstate : c.cbState with
  | opened => exact absurd hstate h
  | halfOpen =>
    rw [settle_halfOpen now ok hstate hlevel]
    cases ok <;> rfl
  | closed =>
    rcases (settle_closed now ok hstate).2 with ⟨hgo, hnext, -⟩ | ⟨hgo, hnext⟩
    · rw [hgo, hnext, if_pos rfl]
    rw [hgo, hnext]
    rfl

theorem Circuit.Sound.of_ne (h : c.cbState ≠ .closed) (hlevel : c.cbPauseLevel ≤ 2) : c.Sound :=
  ⟨fun hclosed => absurd hclosed h, hlevel⟩

theorem sound_reset (c : Circuit) : (resetCircuit c).Sound :=
  ⟨fun _ => ⟨zero_lt_succ 4, rfl⟩, zero_le 2⟩

theorem Circuit.Sound.check (h : c.Sound) : (c.check now).1.Sound := by
  rcases check_cases now c with ⟨heq, -⟩ | ⟨-, heq | ⟨heq, -⟩⟩
  · rw [heq]
    exact h
  · rw [heq]
    exact h
  · rw [heq]
    exact .of_ne (by simp) h.level

theorem Circuit.Sound.settle (h : c.Sound) : (c.settle now ok).1.Sound := by
  cases hstate : c.cbState with
  | halfOpen =>
    rw [settle_halfOpen now ok hstate h.level]
    cases ok with
    | true => exact ⟨fun _ => ⟨zero_lt_succ 4, rfl⟩, zero_le 2⟩
    | false => exact .of_ne (by simp) (Nat.min_le_right _ _)
  | opened =>
    obtain ⟨hopen, hlevel⟩ := settle_opened now ok hstate
    exact .of_ne (by simp [hopen]) (hlevel ▸ h.level)
  | closed =>
    obtain ⟨hlevel, hnext⟩ := settle_closed now ok hstate
    have hzero : (c.settle now ok).1.cbPauseLevel = 0 := hlevel.trans (h.closed hstate).2
    rcases hnext with ⟨-, -, hfew⟩ | ⟨-, hopen⟩
    · exact ⟨fun _ => ⟨hfew, hzero⟩, hzero ▸ zero_le 2⟩
    · exact .of_ne (by simp [hopen]) (hzero ▸ zero_le 2)

end

/-! ### What is allowed is disciplined -/

variable {log log' front : List Entry} {p p' : Point} {s s' : State} {e : Entry} {id : Option ℕ}
  {success : Prop} {item : Item}

theorem circuitOf_sound (h : Always Allowed log) : (circuitOf log).Sound := by
  induction log with
  | nil => exact ⟨fun _ => ⟨by decide, rfl⟩, zero_le 2⟩
  | cons e log ih => ?_
  have hold := ih h.2
  cases e with
  | breaker cause before after =>
    cases cause with
    | check now =>
      obtain ⟨rfl, rfl⟩ := h.1
      exact hold.check now
    | settle id ok now =>
      obtain ⟨rfl, rfl, -⟩ := h.1
      exact hold.settle now ok
    | reset =>
      obtain ⟨rfl, rfl⟩ := h.1
      exact sound_reset _
  | _ => exact hold

theorem posts_phase_le (h : Always Allowed log) (hhalf : (circuitOf log).cbState = .halfOpen) :
    (posts (phase log)).length ≤ 1 := by
  induction log with
  | nil => exact zero_le 1
  | cons e log ih => ?_
  cases e with
  | posted id url =>
    have hnone : posts (phase log) = [] := h.1.2 hhalf
    simp [phase, posts, hnone]
  | breaker cause before after =>
    unfold phase
    split
    · next hsame =>
      have hbefore : before = circuitOf log := by
        cases cause <;> exact h.1.1
      rw [circuitOf, ← hsame, hbefore] at hhalf
      exact ih h.2 hhalf
    · exact zero_le 1
  | _ => exact ih h.2 hhalf

/-- **What is allowed is disciplined.** -/
theorem disciplined (h : Always Allowed log) : Disciplined log where
  sound := circuitOf_sound h
  shut := by
    rintro id url log' rfl
    exact h.1.1
  pause := by
    rintro cause before after log' rfl hopen hleft
    cases cause with
    | reset => exact .inl rfl
    | check now =>
      obtain ⟨-, rfl⟩ := h.1
      rcases check_cases now before with ⟨-, hne⟩ | ⟨-, heq | ⟨heq, hpause⟩⟩
      · exact absurd hopen hne
      · rw [heq] at hleft
        exact absurd hopen hleft
      · exact .inr ⟨now, rfl, by rw [heq], hpause⟩
    | settle id ok now =>
      obtain ⟨-, rfl, -⟩ := h.1
      exact absurd (settle_opened now ok hopen).1 hleft
  probe := posts_phase_le h
  decided := by
    rintro cause before after log' rfl hhalf hleft
    have hlevel := (circuitOf_sound h.2).level
    cases cause with
    | reset =>
      obtain ⟨-, rfl⟩ := h.1
      exact .inl ⟨rfl, rfl⟩
    | check now =>
      obtain ⟨-, rfl⟩ := h.1
      rcases check_cases now before with ⟨heq, -⟩ | ⟨hopen, -⟩
      · rw [heq] at hleft
        exact absurd hhalf hleft
      · rw [hhalf] at hopen
        cases hopen
    | settle id ok now =>
      obtain ⟨rfl, rfl, hprobe⟩ := h.1
      obtain ⟨hids, rfl⟩ := hprobe hhalf
      refine .inr ⟨id, now, rfl, hids, ?_⟩
      rw [settle_halfOpen _ _ hhalf hlevel]
      split
      · exact ⟨rfl, rfl⟩
      · exact ⟨rfl, rfl, rfl⟩

/-! ### The loop -/

/-- In a half-open phase only this row was posted, and an endpoint has answered below 300 if
and only if `success`. -/
def Probe (id : Option ℕ) (success : Prop) (log : List Entry) : Prop :=
  (circuitOf log).cbState = .halfOpen →
    (∀ id' ∈ posts (phase log), some id' = id) ∧ (succeeded (phase log) = true ↔ success)

def Through (id : Option ℕ) (success : Prop) (log : List Entry) : Prop :=
  (circuitOf log).cbState ≠ .opened ∧ Probe id success log

/-- What the others note leaves a half-open phase as it is, or ends it by closing the
breaker. -/
structure Apart (log log' : List Entry) : Prop where
  opened : (circuitOf log').cbState = .opened → (circuitOf log).cbState = .opened
  probe : (circuitOf log').cbState = .halfOpen → (circuitOf log).cbState = .halfOpen ∧
    posts (phase log') = posts (phase log) ∧ succeeded (phase log') = succeeded (phase log)

theorem Apart.refl (log : List Entry) : Apart log log := ⟨id, fun h => ⟨h, rfl, rfl⟩⟩

theorem Apart.trans {a b c : List Entry} (hab : Apart a b) (hbc : Apart b c) : Apart a c := by
  refine ⟨fun h => hab.opened (hbc.opened h), fun h => ?_⟩
  obtain ⟨hb, hposts, hsucc⟩ := hbc.probe h
  obtain ⟨ha, hposts', hsucc'⟩ := hab.probe hb
  exact ⟨ha, hposts.trans hposts', hsucc.trans hsucc'⟩

theorem apart_cons (he : e.plain = true) (log : List Entry) : Apart log (e :: log) := by
  cases e with
  | posted _ _ | answered _ _ _ _ | breaker _ _ _ => cases he
  | _ => exact ⟨id, fun h => ⟨h, rfl, rfl⟩⟩

theorem apart_append (h : ∀ e ∈ front, e.plain = true) (log : List Entry) :
    Apart log (front ++ log) := by
  induction front with
  | nil => exact .refl log
  | cons e front ih =>
    have hfront := ih fun e' he' => h e' (mem_cons_of_mem e he')
    exact hfront.trans (apart_cons (h e mem_cons_self) _)

theorem circuitOf_append (h : ∀ e ∈ front, e.plain = true) (log : List Entry) :
    circuitOf (front ++ log) = circuitOf log := by
  induction front with
  | nil => rfl
  | cons e front ih => ?_
  have hfront := ih fun e' he' => h e' (mem_cons_of_mem e he')
  have he := h e mem_cons_self
  cases e with
  | breaker cause before after => cases he
  | _ => exact hfront

theorem Probe.apart (h : Probe id success log) (hR : Apart log log') : Probe id success log' := by
  intro hhalf
  obtain ⟨hold, hposts, hsucc⟩ := hR.probe hhalf
  rw [hposts, hsucc]
  exact h hold

theorem Through.apart (h : Through id success log) (hR : Apart log log') :
    Through id success log' :=
  ⟨fun hopen => h.1 (hR.opened hopen), h.2.apart hR⟩

structure Tracked (s : State) : Prop where
  circuit : s.circuit = circuitOf s.log
  allowed : Always Allowed s.log

def breakerAt : Point → List Entry → Prop
  | .idle => Probe none False
  | .ready | .holding _ => Through none False
  | .flying item _ _ => Through (some item.id) False
  | .returned item _ r => Through (some item.id) (∃ status < 300, r = .ok status)
  | .settled item _ ok => Through (some item.id) (ok = true)

theorem breakerAt_apart (h : breakerAt p log) (hR : Apart log log') : breakerAt p log' := by
  cases p with
  | idle => exact Probe.apart h hR
  | ready | holding _ | flying _ _ _ | returned _ _ _ | settled _ _ _ => exact Through.apart h hR

def breakerOutline : Outline where
  Inv := Tracked
  Rely s s' := Apart s.log s'.log
  At p s := breakerAt p s.log

theorem allowed_of_plain (he : e.plain = true) (log : List Entry) : Allowed e log := by
  cases e with
  | posted _ _ | answered _ _ _ _ | breaker _ _ _ => cases he
  | _ => trivial

theorem Tracked.plain (h : Tracked s) (front : List Entry) (hfront : ∀ e ∈ front, e.plain = true)
    (hlog : s'.log = front ++ s.log) (hcircuit : s'.circuit = s.circuit) :
    Tracked s' ∧ Apart s.log s'.log := by
  rw [hlog]
  refine ⟨⟨?_, ?_⟩, apart_append hfront s.log⟩
  · rw [hcircuit, h.circuit, hlog, circuitOf_append hfront]
  rw [hlog]
  exact h.allowed.append fun e he log => allowed_of_plain (hfront e he) log

theorem breakerOutline_steps {f : State → State} (front : List Entry)
    (hfront : ∀ e ∈ front, e.plain = true) (hlog : ∀ s, (f s).log = front ++ s.log)
    (hcircuit : ∀ s, (f s).circuit = s.circuit) (h : ∀ log, breakerAt p log → breakerAt p' log) :
    breakerOutline.Steps p p' f := by
  intro s hp hI
  obtain ⟨hs', hapart⟩ := Tracked.plain hI front hfront (hlog s) (hcircuit s)
  exact ⟨hs', breakerAt_apart (h _ hp) hapart⟩

theorem Tracked.breaker (h : Tracked s) {cause : Cause} {after : Circuit}
    (hallowed : Allowed (.breaker cause s.circuit after) s.log) : Tracked (s.breaker cause after) :=
  ⟨rfl, hallowed, h.allowed⟩

theorem breakerOutline_marks (h : ∀ log, breakerAt p log → breakerAt p' log) :
    breakerOutline.Marks p p' item := by
  intro g _
  refine ⟨?_, fun now => ?_⟩
  · exact breakerOutline_steps [] (by simp) (fun _ => rfl) (fun _ => rfl) h
  · exact breakerOutline_steps [.written ..] (by simp [Entry.plain]) (fun _ => rfl) (fun _ => rfl) h

theorem Tracked.administers (h : Tracked s) (hs : Administers s s') :
    Tracked s' ∧ Apart s.log s'.log := by
  cases hs with
  | nothing => exact ⟨h, .refl _⟩
  | accept r hid => exact h.plain [.accepted ..] (by simp [Entry.plain]) rfl rfl
  | retry now => exact h.plain [] (by simp) rfl rfl
  | retarget url authType authValue apiKeyHeader now =>
    exact h.plain [.rewritten ..] (by simp [Entry.plain]) rfl rfl
  | clear =>
    refine h.plain _ (fun e he => ?_) rfl rfl
    obtain ⟨r, -, rfl⟩ := mem_map.mp he
    rfl
  | reset =>
    refine ⟨h.breaker ⟨h.circuit, rfl⟩, ?_, ?_⟩
    · intro hopen
      cases hopen
    · intro hhalf
      cases hhalf

theorem Tracked.check (h : Tracked s) (hp : breakerAt .idle s.log) (now : ℤ) :
    Tracked (s.check now).1 ∧
      breakerAt (if (s.check now).2 then .ready else .idle) (s.check now).1.log := by
  refine ⟨h.breaker ⟨h.circuit, rfl⟩, ?_⟩
  have hlog : (s.check now).1.log =
      .breaker (.check now) s.circuit (s.circuit.check now).1 :: s.log := rfl
  have hgo : (s.check now).2 = (s.circuit.check now).2 := rfl
  rw [hlog, hgo]
  rcases check_cases now s.circuit with ⟨heq, hne⟩ | ⟨hopen, heq | ⟨heq, -⟩⟩
  · -- the phase goes on
    rw [heq, if_pos rfl]
    refine ⟨hne, fun hhalf => ?_⟩
    rw [circuitOf, h.circuit] at hhalf
    have hphase : phase (.breaker (.check now) s.circuit s.circuit :: s.log) =
        .breaker (.check now) s.circuit s.circuit :: phase s.log := if_pos rfl
    rw [hphase]
    exact hp hhalf
  · rw [heq]
    intro hhalf
    rw [circuitOf, hopen] at hhalf
    cases hhalf
  · -- a phase begins
    rw [heq, if_pos rfl]
    refine ⟨CircuitState.noConfusion, fun _ => ?_⟩
    have hphase : phase (.breaker (.check now) s.circuit { s.circuit with cbState := .halfOpen } ::
        s.log) = [] := if_neg (by simp [hopen])
    rw [hphase]
    simp [posts, succeeded]

theorem Tracked.settle (h : Tracked s) {items : List Item} {ok : Bool}
    (hp : breakerAt (.settled item items ok) s.log) (now : ℤ) :
    Tracked (s.settle item.id ok now).1 ∧
      breakerAt (if (s.settle item.id ok now).2 then .holding items else .idle)
        (s.settle item.id ok now).1.log := by
  have hallowed : Allowed (.breaker (.settle item.id ok now) s.circuit
      (s.circuit.settle now ok).1) s.log := by
    refine ⟨h.circuit, rfl, fun hhalf => ?_⟩
    rw [h.circuit] at hhalf
    obtain ⟨hids, hsucc⟩ := hp.2 hhalf
    exact ⟨fun id' hid' => Option.some.inj (hids id' hid'), Bool.eq_iff_iff.mpr hsucc⟩
  have hne : s.circuit.cbState ≠ .opened := h.circuit ▸ hp.1
  have hnext := settle_next now ok hne (h.circuit ▸ (circuitOf_sound h.allowed).level)
  have hs' := h.breaker hallowed
  unfold State.settle
  cases hgo : (s.circuit.settle now ok).2 with
  | true =>
    rw [hgo, if_pos rfl] at hnext
    refine ⟨hs', fun hopen => ?_, fun hhalf => ?_⟩
    · have : (s.circuit.settle now ok).1.cbState = .opened := hopen
      rw [hnext] at this
      cases this
    have : (s.circuit.settle now ok).1.cbState = .halfOpen := hhalf
    rw [hnext] at this
    cases this
  | false =>
    rw [hgo] at hnext
    refine ⟨⟨hs'.circuit, hs'.allowed⟩, fun hhalf => ?_⟩
    have : (s.circuit.settle now ok).1.cbState = .halfOpen := hhalf
    rw [hnext] at this
    cases this

/-- **Every step is allowed**, and a POST is started only when the breaker is closed, or
half-open and this is the first. -/
theorem breakerOutline_valid (out : Outside) : breakerOutline.Valid out where
  start := ⟨⟨rfl, trivial⟩, fun h => by cases h⟩
  refl s := .refl s.log
  trans _ _ _ hab hbc := hab.trans hbc
  administers s s' hs hI := Tracked.administers hI hs
  stable p s s' hp hR _ := breakerAt_apart hp hR
  check now s hp hI := Tracked.check hI hp now
  unread s hp := hp.2
  dequeue now limit s hp hI := by
    obtain ⟨hs', hapart⟩ : Tracked (s.dequeue now limit) ∧ Apart s.log (s.dequeue now limit).log :=
      Tracked.plain hI [.dequeued] (by simp [Entry.plain]) rfl rfl
    exact ⟨hs', Through.apart hp hapart⟩
  unreadable l r rows := breakerOutline_marks fun log hp => hp
  decrypted l r rows authValue s hp := hp
  ended s hp := hp.2
  stopped items :=
    breakerOutline_steps [] (by simp) (fun _ => rfl) (fun _ => rfl) fun _ hp => hp.2
  invalid item items _ := by
    refine breakerOutline_marks fun log hp => ⟨hp.1, fun hhalf => ?_⟩
    obtain ⟨hids, hsucc⟩ := hp.2 hhalf
    refine ⟨fun id' hid' => ?_, ?_⟩
    · cases hids id' hid'
    rw [hsucc]
    simp
  posted item items _ s hp hI := by
    have hnone : (circuitOf s.log).cbState = .halfOpen → posts (phase s.log) = [] := by
      intro hhalf
      refine eq_nil_iff_forall_not_mem.mpr fun id' hid' => ?_
      cases (hp.2 hhalf).1 id' hid'
    refine ⟨⟨hI.circuit, ⟨hp.1, hnone⟩, hI.allowed⟩, hp.1, fun hhalf => ⟨?_, (hp.2 hhalf).2⟩⟩
    intro id' hid'
    have hmem : id' ∈ item.id :: posts (phase s.log) := hid'
    rw [hnone hhalf, mem_singleton] at hmem
    rw [hmem]
  failed item items body err s hp := by
    refine ⟨hp.1, fun hhalf => ⟨(hp.2 hhalf).1, ?_⟩⟩
    rw [(hp.2 hhalf).2]
    simp
  answered item items body url status s hp hI := by
    have hI' : Tracked (s.answered item.id url body status) := ⟨hI.circuit, trivial, hI.allowed⟩
    have hsucc : (circuitOf s.log).cbState = .halfOpen →
        (succeeded (phase (s.answered item.id url body status).log) = true ↔ status < 300) := by
      intro hhalf
      have hold := (hp.2 hhalf).2
      show (decide (status < 300) || succeeded (phase s.log)) = true ↔ status < 300
      rw [Bool.or_eq_true, hold]
      simp
    refine ⟨hI', ⟨hp.1, fun hhalf => ⟨(hp.2 hhalf).1, ?_⟩⟩, fun includeBody hredirect => ?_⟩
    · rw [hsucc hhalf]
      simp
    -- a status that redirects is not below 300
    refine ⟨hp.1, fun hhalf => ⟨(hp.2 hhalf).1, ?_⟩⟩
    rw [hsucc hhalf]
    unfold redirectBehavior at hredirect
    grind
  delivered item items status hlt := by
    have hok : ∀ log, breakerAt (.returned item items (.ok status)) log →
        breakerAt (.settled item items true) log := by
      refine fun log hp => ⟨hp.1, fun hhalf => ⟨(hp.2 hhalf).1, ?_⟩⟩
      rw [(hp.2 hhalf).2]
      simp [hlt]
    refine ⟨?_, fun now => ?_⟩
    · exact breakerOutline_steps [] (by simp) (fun _ => rfl) (fun _ => rfl) hok
    · exact breakerOutline_steps [] (by simp) (fun _ => rfl) (fun _ => rfl) hok
  undelivered item items r hr := by
    refine breakerOutline_marks fun log hp => ⟨hp.1, fun hhalf => ⟨(hp.2 hhalf).1, ?_⟩⟩
    rw [(hp.2 hhalf).2]
    simp only [Bool.false_eq_true, iff_false, not_exists, not_and]
    intro status hlt heq
    have := hr status heq
    omega
  settle item items ok now s hp hI := Tracked.settle hI hp now

/-! ### Every run -/

/-- **The breaker keeps its discipline**: in every run of the loop with test deliveries,
retries and resets, for every clock and every answer of the endpoints, at every moment. -/
theorem breaker_disciplined (out : Outside) (n : ℕ) (sched : List (Event WorldEvent Env)) :
    ((start out n).exec (world out) sched).state.circuit =
        circuitOf ((start out n).exec (world out) sched).state.log ∧
      ∀ log, log <:+ ((start out n).exec (world out) sched).state.log → Disciplined log := by
  have htracked : Tracked ((start out n).exec (world out) sched).state :=
    (breakerOutline_valid out).exec n sched
  exact ⟨htracked.circuit, fun log hlog => disciplined (htracked.allowed.suffix hlog)⟩

end ArcRelay.Archive
