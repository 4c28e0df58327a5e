import ArcRelay.Bridge.Stdio
import ArcRelay.Server.Pipeline

/-!
# Closing a bridge under its callers

`Close` closes the channels that are in the map, and a caller that waits on a channel that is
closed is given nil: no response, and no error either.  So what `Send` returns is neither
exactly when the caller was registered when the bridge was drained, and whoever looks into the
response then panics.

The backend is not held to anything here: it may write any line at any time, or none.

* `Drains`: a caller is in the map when it is drained.
* `send_answers`, `send_nil`: others get a response or an error, and one that does not.
-/

namespace ArcRelay.Bridge

open Interleave Json Mcp Pipeline List

/-- What happens outside: a line that carries the id of request `a`, and `Close`. -/
inductive Outside where
  | line (a : ℕ)
  | bridge (ev : WorldEvent)

def outside : Outside → State → State
  | .line a, s => { s with stdout := s.stdout ++ [a] }
  | .bridge ev, s => world ev s

def Returned.sent (message : ℕ → FullResponse) : Returned → Option SendResult
  | .response a => some (.ok (a.map message))
  | .failed err => some (.error err)
  | .waiting => none

/-- Caller `i` is in the map at a point of the run at which it is drained. -/
def Drains (P : Pool State Env Returned) (sched : List (Event Outside Env)) (i : ℕ) : Prop :=
  ∃ before rest, sched = before ++ .env (.bridge .drainPending) :: rest ∧
    i ∈ (P.exec outside before).state.pending.map Prod.snd

/-! ### The channels -/

/-- A step of a program puts at most a response into a channel. -/
def Delivers (s s' : State) : Prop :=
  s.channels <+: s'.channels ∧ ∀ j, (j, none) ∈ s'.channels → (j, none) ∈ s.channels

theorem Delivers.of_eq {s s' : State} (h : s'.channels = s.channels) : Delivers s s' :=
  ⟨h ▸ prefix_refl _, fun _ hj => h ▸ hj⟩

def Keeps (s s' : State) : Prop := s.channels <+: s'.channels

theorem Keeps.refl (_ : ℕ) (s : State) : Keeps s s := prefix_refl _

theorem Keeps.trans (_ : ℕ) (a b c : State) (hab : Keeps a b) (hbc : Keeps b c) : Keeps a c :=
  List.IsPrefix.trans hab hbc

theorem outside_keeps (ev : Outside) (s : State) : Keeps s (outside ev s) := by
  cases ev with
  | line a => exact prefix_refl _
  | bridge ev => ?_
  cases ev with
  | answer i =>
    rw [outside, world]
    split
    · exact prefix_refl _
    · exact prefix_refl _
  | markClosed | closeStdin => exact prefix_refl _
  | drainPending => exact prefix_append _ _

def NilFromChannel (i : ℕ) (r : Returned) (s : State) : Prop :=
  r = .response none → (i, none) ∈ s.channels

abbrev Watched (Q : α → State → Prop) (p : Run α) (s : State) : Prop :=
  Prog.Safe (fun _ => True) Keeps Delivers Q p s

section

variable {ids : ℕ → Bytes} {i : ℕ} {s : State} {α β : Type} {Q : β → State → Prop}

theorem watched_pure {r : Returned} (h : r ≠ .response none) :
    Watched (NilFromChannel i) (pure r) s :=
  fun _ _ _ hr => absurd hr h

theorem watched_step {f : State → Env → State × α} {k : α → Run β}
    (hf : ∀ s e, (f s e).1.channels = s.channels)
    (hk : ∀ s' e, Watched Q (k (f s' e).2) (f s' e).1) : Watched Q (Prog.act f >>= k) s :=
  Prog.safe_act_bind.mpr fun s' _ _ e => ⟨trivial, .of_eq (hf s' e), hk s' e⟩

theorem watched_unregister (err : String) :
    Watched (NilFromChannel i) (unregister ids i >>= fun _ => pure (.failed err)) s :=
  watched_step (fun _ _ => rfl) fun _ _ => watched_pure nofun

theorem watched_await (n : ℕ) (s : State) : Watched (NilFromChannel i) (await ids i n) s := by
  induction n generalizing s with
  | zero => exact watched_pure nofun
  | succ n ih => ?_
  refine watched_step (fun _ _ => rfl) fun s1 e => ?_
  dsimp only
  cases e.ctxErr with
  | some err => exact watched_unregister err
  | none => ?_
  refine watched_step (fun _ _ => rfl) fun s2 _ => ?_
  dsimp only
  cases hlookup : s2.channels.lookup i with
  | none => exact ih s2
  | some answer => ?_
  intro s3 hkeeps _ hnil
  cases hnil
  obtain ⟨l1, l2, heq, -⟩ := lookup_eq_some_iff.mp hlookup
  refine hkeeps.subset ?_
  rw [heq]
  exact mem_append_right _ mem_cons_self

theorem watched_send (patience : ℕ) (s : State) :
    Watched (NilFromChannel i) (send ids i patience) s := by
  refine watched_step (fun _ _ => rfl) fun s1 _ => ?_
  split
  · exact watched_pure nofun
  refine watched_step (fun _ _ => rfl) fun s2 _ => ?_
  refine watched_step (fun s3 e => ?_) fun s3 e => ?_
  · split <;> rfl
  cases (if s3.stdinClosed then some "writing to stdin: closed" else e.writeErr) with
  | some err => exact watched_unregister err
  | none => exact watched_await patience _

theorem watched_readLoop (n : ℕ) (s : State) : Watched (fun _ _ => True) (readLoop ids n) s := by
  induction n generalizing s with
  | zero => exact fun _ _ _ => trivial
  | succ n ih => ?_
  refine watched_step (fun s1 _ => by split <;> rfl) fun s1 _ => ?_
  cases s1.stdout with
  | nil => exact ih _
  | cons a rest => ?_
  dsimp only
  cases s1.pending.lookup (ids a) with
  | none => exact ih _
  | some j => ?_
  refine Prog.safe_act_bind.mpr fun s2 _ _ _ => ⟨trivial, ?_, ih _⟩
  refine ⟨prefix_append _ _, fun j' hj' => ?_⟩
  rcases mem_append.mp hj' with hj' | hj'
  · exact hj'
  · cases mem_singleton.mp hj'

end

/-! ### Every run -/

section

variable (ids : ℕ → Bytes) (callers patience lines : ℕ)

theorem start_watched :
    Pool.AllSafe (fun _ => True) (fun _ => Keeps) (fun _ => Delivers)
      (fun i r s => i ≠ 0 → NilFromChannel i r s) (start ids callers patience lines) := by
  refine ⟨trivial, fun i p hp => ?_⟩
  rcases start_threads hp with ⟨rfl, rfl⟩ | rfl
  · exact (watched_readLoop lines _).weaken fun _ _ _ _ h => absurd rfl h
  · exact (watched_send patience _).weaken fun _ _ _ h _ => h

theorem run_watched (sched : List (Event Outside Env)) :
    Pool.AllSafe (fun _ => True) (fun _ => Keeps) (fun _ => Delivers)
      (fun i r s => i ≠ 0 → NilFromChannel i r s)
      ((start ids callers patience lines).exec outside sched) :=
  Pool.exec_safe Keeps.refl Keeps.trans (fun _ _ _ _ _ _ hG => hG.1)
    (fun ev s _ => ⟨trivial, fun _ => outside_keeps ev s⟩)
    (start_watched ids callers patience lines) sched

/-- **A channel is closed only by a drain that has found its caller.** -/
theorem closed_by_drain {i : ℕ} (sched : List (Event Outside Env))
    (h : (i, none) ∈ ((start ids callers patience lines).exec outside sched).state.channels) :
    Drains (start ids callers patience lines) sched i := by
  induction sched using List.reverseRecOn with
  | nil => cases h
  | append_singleton sched ev ih => ?_
  -- an earlier drain is one of the longer run
  have hearlier : (i, none) ∈
      ((start ids callers patience lines).exec outside sched).state.channels →
      Drains (start ids callers patience lines) (sched ++ [ev]) i := by
    intro hold
    obtain ⟨before, rest, heq, hmem⟩ := ih hold
    refine ⟨before, rest ++ [ev], ?_, hmem⟩
    rw [heq, append_assoc, cons_append]
  rw [Pool.exec_append] at h
  cases ev with
  | run j e =>
    have hG := (run_watched ids callers patience lines sched).guarantee outside Keeps.refl
      (fun _ _ => Delivers.of_eq rfl) j e
    exact hearlier (hG.2 i h)
  | env ev => ?_
  cases ev with
  | line a => exact hearlier h
  | bridge ev => ?_
  cases ev with
  | answer j =>
    refine hearlier ?_
    change (i, none) ∈ (world (.answer j) _).channels at h
    rw [world] at h
    split at h <;> exact h
  | markClosed | closeStdin => exact hearlier h
  | drainPending =>
    rcases mem_append.mp h with h | h
    · exact hearlier h
    obtain ⟨p, hp, heq⟩ := mem_map.mp h
    obtain ⟨rfl, -⟩ := Prod.mk.inj heq
    exact ⟨sched, [], rfl, mem_map_of_mem hp⟩

/-- **A caller that no drain has found gets a response or an error**, and the handler with its
middleware and optimizer, the enumeration and whoever else looks into the response finds one. -/
theorem send_answers (sched : List (Event Outside Env)) (message : ℕ → FullResponse) (i : ℕ)
    (hi : i ≠ 0) (hdrain : ¬ Drains (start ids callers patience lines) sched i) {r : Returned}
    (hret : ((start ids callers patience lines).exec outside sched).result i = some r)
    {answer : SendResult} (hanswer : r.sent message = some answer) :
    answer ≠ .ok none ∧
      (pingServer answer = none ∨ ∃ err, answer = .error err) ∧
      (∀ (T : Type) (h : Handler T) (req : Request), NoNil (h.respond req answer)) ∧
      ∀ (α : Type) (use : Sender → Except String α), NoNil (onAnswer use answer) := by
  have hnil : answer ≠ .ok none := by
    rintro rfl
    have hr : r = .response none := by
      cases r with
      | response a =>
        cases a with
        | none => rfl
        | some a => cases hanswer
      | failed _ | waiting => cases hanswer
    have hpost := (run_watched ids callers patience lines sched).post Keeps.refl hret hi hr
    exact hdrain (closed_by_drain ids callers patience lines sched hpost)
  have hping : pingServer answer = none ∨ ∃ err, answer = .error err := by
    cases answer with
    | error err => exact Or.inr ⟨err, rfl⟩
    | ok resp => ?_
    cases resp with
    | none => exact absurd rfl hnil
    | some resp => exact Or.inl (pingServer_eq_none.mpr ⟨resp, rfl⟩)
  exact ⟨hnil, hping, fun _ h req => h.respond_safe req hnil, fun _ use => onAnswer_safe use hnil⟩

end

/-! ### A bridge that is closed too early -/

def close : List (Event Outside Env) :=
  [.env (.bridge .markClosed), .env (.bridge .closeStdin), .env (.bridge .drainPending)]

def asks (i : ℕ) : List (Event Outside Env) := List.replicate 3 (.run i {})

def looks (i : ℕ) : List (Event Outside Env) := List.replicate 2 (.run i {})

def untilDrain : List (Event Outside Env) :=
  asks 1 ++ [.env (.line 1), .run 0 {}, .run 0 {}] ++ looks 1 ++
    [.env (.bridge .markClosed), .env (.bridge .closeStdin)]

def stopAfter : List (Event Outside Env) := untilDrain ++ [.env (.bridge .drainPending)]

theorem undrained : .env (.bridge .drainPending) ∉ untilDrain := by
  simp [untilDrain, asks, looks]

def stopBefore : List (Event Outside Env) := asks 1 ++ close ++ looks 1

def noTools (_ : ℕ) : FullResponse :=
  { id := some (utf8 "1"), result := utf8 "\x7b\"tools\":[]\x7d" }

def sanitized : Handler Unit where
  texts := ⟨id, id⟩
  server := ⟨[], [], ⟨[], nodup_nil⟩, []⟩
  serverID := "s"
  about := ⟨"s", "s", "ping", "", "", "", ""⟩
  pipeline := [.sanitizer []]
  optimizer := none
  user := none
  readFails := false

theorem send_answers_stopAfter :
    ((start sameID 1 1 1).exec outside stopAfter).result 1 = some (.response (some 1)) ∧
      NoNil (sanitized.respond ⟨"2.0", some (utf8 "1"), "tools/list", none⟩
        (.ok (some (noTools 1)))) := by
  have hdrain : ¬ Drains (start sameID 1 1 1) stopAfter 1 := by
    rintro ⟨before, rest, heq, hmem⟩
    -- the run has one drain, at its end
    have hsplit : stopAfter = untilDrain ++ .env (.bridge .drainPending) :: [] := rfl
    obtain ⟨rfl, -⟩ := (append_cons_inj_of_notMem undrained not_mem_nil).mp heq
    have hpending : ((start sameID 1 1 1).exec outside untilDrain).state.pending = [] := by
      decide +kernel
    cases hmem
  have hret : ((start sameID 1 1 1).exec outside stopAfter).result 1 =
      some (.response (some 1)) := by decide +kernel
  exact ⟨hret, (send_answers sameID 1 1 1 stopAfter noTools 1 (by decide) hdrain hret rfl).2.2.1
    Unit sanitized _⟩

/-- **A nil response reaches the pipeline**: the bridge is closed while the caller waits, `Send`
returns neither a response nor an error, and the sanitizer panics. -/
theorem send_nil :
    ¬ ∀ r answer, ((start sameID 1 1 1).exec outside stopBefore).result 1 = some r →
      r.sent noTools = some answer →
        answer ≠ .ok none ∧
          NoNil (sanitized.respond ⟨"2.0", some (utf8 "1"), "tools/list", none⟩ answer) := by
  intro h
  have hret : ((start sameID 1 1 1).exec outside stopBefore).result 1 = some (.response none) := by
    decide +kernel
  exact (h _ _ hret rfl).2 rfl

end ArcRelay.Bridge
