import ArcRelay.Archive.Dispatcher

/-!
# A proof outline of the archive loop

Results about the loop differ in what they say at each of its points, not in how they
follow the loop.  This module follows it once: an `Outline` says what holds at each point,
`Outline.Valid` asks of every atomic step that it leads from one point to the next and
keeps the invariant, and then the invariant holds along every run.
-/

namespace ArcRelay.Archive

open Interleave Prog Json

inductive Point where
  | idle
  | ready
  | holding (items : List Item)
  /-- The POST for a row was started and its last answer is not there yet; the body is
  what the next request would send. -/
  | flying (item : Item) (items : List Item) (body : Option Bytes)
  | returned (item : Item) (items : List Item) (r : Except String ℕ)
  /-- The row is settled, the breaker does not know yet. -/
  | settled (item : Item) (items : List Item) (ok : Bool)

inductive Administers (s : State) : State → Prop where
  | nothing : Administers s s
  | accept (r : Item) (hid : r.id = s.nextID) :
    Administers s { s with
      queue := s.queue ++ [r], nextID := s.nextID + 1
      log := .accepted s.nextID r.payload :: s.log }
  | retry (now : ℤ) : Administers s { s with queue := retryHeld now s.queue }
  | retarget (url authType authValue apiKeyHeader : String) (now : ℤ) :
    Administers s { s with
      queue := rewriteHeldDelivery url authType authValue apiKeyHeader now s.queue
      log := .rewritten url (destinations s.queue) (destinations s.hand) :: s.log }
  | clear :
    Administers s { s with
      queue := clearHeld s.queue
      log := (s.queue.filter fun r => r.status = .hold).map (fun r => .cleared r.id) ++ s.log }
  | reset : Administers s (s.breaker .reset (resetCircuit s.circuit))

theorem administers_world (out : Outside) (ev : WorldEvent) (s : State) :
    Administers s (world out ev s) := by
  cases ev with
  | enqueue payload cfg serverID nonce now =>
    simp only [world]
    cases storedAuth out nonce cfg.authValue with
    | error err => exact .nothing
    | ok authValue => exact .accept _ rfl
  | retryHeld now => exact .retry now
  | rewriteHeldDelivery cfg nonce now =>
    simp only [world]
    cases storedAuth out nonce cfg.authValue with
    | error err => exact .nothing
    | ok authValue => exact .retarget ..
  | clearHeld => exact .clear
  | resetCircuit => exact .reset
  | sendTest =>
    simp only [world]
    split
    · exact .nothing
    · exact .reset

/-- What holds at each point of the loop, and what the others do meanwhile. -/
structure Outline where
  Inv : State → Prop
  Rely : State → State → Prop
  At : Point → State → Prop

def start (out : Outside) (n : ℕ) : Pool State Env Unit := ⟨{}, [drains out n]⟩

namespace Outline

def Steps (o : Outline) (p p' : Point) (f : State → State) : Prop :=
  ∀ s, o.At p s → o.Inv s → o.Inv (f s) ∧ o.At p' (f s)

/-- A statement by which a row is settled, whether it fails or not. -/
def Writes (o : Outline) (p p' : Point) (id : ℕ) (notes : List Entry) (f : ℤ → Queue → Queue) :
    Prop :=
  o.Steps p p' (·.release id) ∧
    ∀ now, o.Steps p p' fun s =>
      { s.release id with queue := f now s.queue, log := notes ++ s.log }

def Keeps (g : Item → Item) : Prop :=
  ∀ r, (g r).id = r.id ∧ (g r).payload = r.payload ∧ (g r).url = r.url

def Marks (o : Outline) (p p' : Point) (item : Item) : Prop :=
  ∀ g : ℤ → Item → Item, (∀ now, Keeps (g now)) →
    o.Writes p p' item.id [.written item.id item.url] fun now =>
      Table.modify Item.id item.id (g now)

structure Valid (o : Outline) (out : Outside) : Prop where
  start : o.Inv {} ∧ o.At .idle {}
  refl : ∀ s, o.Rely s s
  trans : ∀ a b c, o.Rely a b → o.Rely b c → o.Rely a c
  administers : ∀ s s', Administers s s' → o.Inv s → o.Inv s' ∧ o.Rely s s'
  stable : ∀ p s s', o.At p s → o.Rely s s' → o.Inv s' → o.At p s'
  check : ∀ now s, o.At .idle s → o.Inv s → o.Inv (s.check now).1 ∧
    o.At (if (s.check now).2 then .ready else .idle) (s.check now).1
  unread : ∀ s, o.At .ready s → o.At .idle s
  dequeue : ∀ now limit s, o.At .ready s → o.Inv s → o.Inv (s.dequeue now limit) ∧
    o.At (.holding (due s.queue now limit)) (s.dequeue now limit)
  unreadable : ∀ l r rows, o.Marks (.holding (l ++ r :: rows)) (.holding (l ++ rows)) r
  decrypted : ∀ l r rows authValue s, o.At (.holding (l ++ r :: rows)) s →
    o.At (.holding (l ++ { r with authValue := authValue } :: rows)) s
  ended : ∀ s, o.At (.holding []) s → o.At .idle s
  stopped : ∀ items, o.Steps (.holding items) .idle (·.stopped)
  invalid : ∀ item items, (out.urlError item.url).isSome →
    o.Marks (.holding (item :: items)) (.settled item items false) item
  posted : ∀ item items, out.urlError item.url = none →
    o.Steps (.holding (item :: items)) (.flying item items (some item.payload)) (·.posted item)
  failed : ∀ item items body err s, o.At (.flying item items body) s →
    o.At (.returned item items (.error err)) s
  answered : ∀ item items body url status s, o.At (.flying item items body) s → o.Inv s →
    o.Inv (s.answered item.id url body status) ∧
    o.At (.returned item items (.ok status)) (s.answered item.id url body status) ∧
    ∀ includeBody, redirectBehavior status = some includeBody →
      o.At (.flying item items (if includeBody then body else none))
        (s.answered item.id url body status)
  delivered : ∀ item items status, status < 300 →
    o.Writes (.returned item items (.ok status)) (.settled item items true) item.id []
      fun _ => markDelivered item.id
  undelivered : ∀ item items r, (∀ status, r = .ok status → 300 ≤ status) →
    o.Marks (.returned item items r) (.settled item items false) item
  settle : ∀ item items ok now s, o.At (.settled item items ok) s → o.Inv s →
    o.Inv (s.settle item.id ok now).1 ∧
    o.At (if (s.settle item.id ok now).2 then .holding items else .idle) (s.settle item.id ok now).1

namespace Valid

variable {o : Outline} {out : Outside} {s : State} {Q : β → State → Prop} {p p' : Point}
  {k : Except String Unit → Run β} {item : Item} {items : List Item}

abbrev Safe (o : Outline) (Q : α → State → Prop) (p : Run α) (s : State) : Prop :=
  Prog.Safe o.Inv o.Rely (fun _ _ => True) Q p s

variable (h : o.Valid out)

include h

theorem safe_pure (hs : o.At p s) {a : β} (hQ : ∀ s, o.At p s → Q a s) : Safe o Q (pure a) s :=
  fun s' hR hI => hQ s' (h.stable p s s' hs hR hI)

theorem safe_step (hs : o.At p s) {f : State → Env → State × α} {k : α → Run β}
    (hf : ∀ s' e, o.At p s' → o.Inv s' → o.Inv (f s' e).1 ∧ Safe o Q (k (f s' e).2) (f s' e).1) :
    Safe o Q (Prog.act f >>= k) s := by
  refine safe_act_bind.mpr fun s' hR hI e => ?_
  obtain ⟨hI', hk⟩ := hf s' e (h.stable p s s' hs hR hI) hI
  exact ⟨hI', trivial, hk⟩

theorem exec_safe (hs : o.At p s) {id : ℕ} {notes : List Entry}
    {f : ℤ → Queue → Queue} (hw : o.Writes p p' id notes f)
    (hk : ∀ s r, o.At p' s → Safe o Q (k r) s) : Safe o Q (exec id notes f >>= k) s := by
  refine h.safe_step hs fun s' e hs' hI => ?_
  cases e.storeErr with
  | none =>
    obtain ⟨hI', hp'⟩ := hw.2 e.now s' hs' hI
    exact ⟨hI', hk _ _ hp'⟩
  | some err =>
    obtain ⟨hI', hp'⟩ := hw.1 s' hs' hI
    exact ⟨hI', hk _ _ hp'⟩

theorem hold_safe (hs : o.At p s) (hm : o.Marks p p' item) (errMsg : String)
    (hk : ∀ s r, o.At p' s → Safe o Q (k r) s) : Safe o Q (hold item errMsg >>= k) s :=
  h.exec_safe hs (hm (fun now r => { r with
    status := .hold, attempts := r.attempts + 1
    lastAttemptAt := some now, lastError := some errMsg }) fun _ _ => ⟨rfl, rfl, rfl⟩) hk

theorem later_safe (hs : o.At p s) (hm : o.Marks p p' item) (errMsg : String)
    (hk : ∀ s r, o.At p' s → Safe o Q (k r) s) : Safe o Q (later item errMsg >>= k) s := by
  unfold later
  rw [bind_bind]
  refine h.safe_step hs fun s' e hs' hI => ⟨hI, ?_⟩
  exact h.exec_safe hs' (hm (fun now r => { r with
    attempts := r.attempts + 1, nextAttemptAt := nextAttemptTime e.now item.attempts
    lastAttemptAt := some now, lastError := some errMsg }) fun _ _ => ⟨rfl, rfl, rfl⟩) hk

theorem decryptAll_safe {l rows : List Item} (hs : o.At (.holding (l ++ rows)) s) :
    Safe o (fun items => o.At (.holding (l ++ items))) (decryptAll out rows) s := by
  induction rows generalizing l s with
  | nil => exact h.safe_pure hs fun s' hs' => hs'
  | cons r rows ih => ?_
  unfold decryptAll
  split
  · exact h.hold_safe hs (h.unreadable l r rows) _ fun s' _ hs' => ih hs'
  next authValue _ =>
  have hdec := h.decrypted l r rows authValue s hs
  rw [List.append_cons] at hdec
  refine safe_bind h.refl (ih hdec) fun rest s' _ hrest => ?_
  rw [← List.append_cons] at hrest
  exact h.safe_pure hrest fun s'' hs'' => hs''

theorem httpDo_safe {body : Option Bytes} (left : ℕ) (url : String)
    (hs : o.At (.flying item items body) s) :
    Safe o (fun r => o.At (.returned item items r)) (httpDo item.id left body url) s := by
  have hfail : ∀ body s err, o.At (.flying item items body) s →
      Safe o (fun r => o.At (.returned item items r)) (pure (.error err)) s := by
    intro body s err hs
    exact h.safe_pure hs fun s' hs' => h.failed item items body err s' hs'
  have hlast : ∀ s status, o.At (.returned item items (.ok status)) s →
      Safe o (fun r => o.At (.returned item items r)) (pure (.ok status)) s :=
    fun s status hs => h.safe_pure hs fun s' hs' => hs'
  induction left using Nat.strongRecOn generalizing s body url with
  | ind left ih =>
    rw [httpDo.eq_def]
    refine h.safe_step hs fun s1 e hs1 hI1 => ?_
    cases e.net with
    | error err => exact ⟨hI1, hfail body s1 err hs1⟩
    | ok answer => ?_
    obtain ⟨hI, hok, hagain⟩ := h.answered item items body url answer.status s1 hs1 hI1
    refine ⟨hI, ?_⟩
    dsimp only
    split
    · exact hlast _ _ hok
    · exact hlast _ _ hok
    · next hredirect _ => exact hfail _ _ _ (hagain _ hredirect)
    next location hredirect _ =>
    cases left with
    | zero => exact hfail _ _ _ (hagain _ hredirect)
    | succ left => exact ih left (Nat.lt_succ_self left) location (hagain _ hredirect)

theorem sendOne_safe (hs : o.At (.holding (item :: items)) s) :
    Safe o (fun ok => o.At (.settled item items ok)) (sendOne out item) s := by
  have hend : ∀ ok s, o.At (.settled item items ok) s →
      Safe o (fun ok => o.At (.settled item items ok)) (pure ok) s :=
    fun ok s hs => h.safe_pure hs fun s' hs' => hs'
  unfold sendOne
  split
  · next err herr =>
    exact h.hold_safe hs (h.invalid item items (by rw [herr]; rfl)) _ fun s' _ hs' => hend _ s' hs'
  next hurl =>
  refine h.safe_step hs fun s1 e hs1 hI1 => ?_
  obtain ⟨hI2, hs2⟩ := h.posted item items hurl s1 hs1 hI1
  refine ⟨hI2, safe_bind h.refl (h.httpDo_safe 9 item.url hs2) fun r s3 _ hs3 => ?_⟩
  cases r with
  | error err =>
    have hmark := h.undelivered item items (.error err) nofun
    exact h.later_safe hs3 hmark _ fun s' _ hs' => hend _ s' hs'
  | ok status => ?_
  dsimp only
  split
  · next hlt =>
    exact h.exec_safe hs3 (h.delivered item items status hlt) fun s' _ hs' => hend _ s' hs'
  next hge =>
  have hmark := h.undelivered item items (.ok status) fun status' hr => by
    cases hr
    exact Nat.le_of_not_lt hge
  split
  · exact h.later_safe hs3 hmark _ fun s' _ hs' => hend _ s' hs'
  · exact h.hold_safe hs3 hmark _ fun s' _ hs' => hend _ s' hs'

theorem sendAll_safe (hs : o.At (.holding items) s) :
    Safe o (fun _ => o.At .idle) (sendAll out items) s := by
  induction items generalizing s with
  | nil => exact h.safe_pure hs fun s' hs' => h.ended s' hs'
  | cons item items ih => ?_
  refine h.safe_step hs fun s1 e hs1 hI1 => ?_
  cases e.stop with
  | true =>
    obtain ⟨hI, hidle⟩ := h.stopped (item :: items) s1 hs1 hI1
    exact ⟨hI, h.safe_pure hidle fun s' hs' => hs'⟩
  | false => ?_
  refine ⟨hI1, safe_bind h.refl (h.sendOne_safe hs1) fun ok s2 _ hs2 => ?_⟩
  refine h.safe_step hs2 fun s3 e hs3 hI3 => ?_
  obtain ⟨hI, hnext⟩ := h.settle item items ok e.now s3 hs3 hI3
  refine ⟨hI, ?_⟩
  cases hgo : (s3.settle item.id ok e.now).2 with
  | true =>
    rw [hgo] at hnext
    exact ih hnext
  | false =>
    rw [hgo] at hnext
    exact h.safe_pure hnext fun s' hs' => hs'

theorem drainDue_safe (hs : o.At .idle s) : Safe o (fun _ => o.At .idle) (drainDue out) s := by
  refine h.safe_step hs fun s1 e hs1 hI1 => ?_
  obtain ⟨hI, hnext⟩ := h.check e.now s1 hs1 hI1
  refine ⟨hI, ?_⟩
  cases hgo : (s1.check e.now).2 with
  | false =>
    rw [hgo] at hnext
    exact h.safe_pure hnext fun s' hs' => hs'
  | true => ?_
  rw [hgo] at hnext
  unfold dequeueDue
  rw [if_pos rfl, bind_bind]
  refine safe_attempt_bind (fun _ => trivial) fun s2 hR2 hI2 => ?_
  have hs2 := h.stable .ready _ _ hnext hR2 hI2
  refine ⟨fun err => h.safe_pure hs2 fun s' hs' => h.unread s' hs', fun e => ?_⟩
  obtain ⟨hI, hrows⟩ := h.dequeue e.now drainBatchSize s2 hs2 hI2
  refine ⟨hI, trivial, ?_⟩
  rw [bind_bind]
  refine safe_bind h.refl (h.decryptAll_safe (l := []) hrows) fun items s3 _ hs3 => ?_
  exact h.sendAll_safe hs3

theorem drains_safe (n : ℕ) (hs : o.At .idle s) :
    Safe o (fun _ => o.At .idle) (drains out n) s := by
  induction n generalizing s with
  | zero => exact h.safe_pure hs fun s' hs' => hs'
  | succ n ih => exact safe_bind h.refl (h.drainDue_safe hs) fun _ s' _ hs' => ih hs'

/-- **A valid outline keeps its invariant along every run** of the loop among
administrators. -/
theorem exec (n : ℕ) (sched : List (Event WorldEvent Env)) :
    o.Inv ((Archive.start out n).exec (world out) sched).state := by
  obtain ⟨-, -, hinv, -, -⟩ := Pool.exec_single (T := fun _ _ => True) h.refl h.trans
    (fun ev s hI => h.administers s _ (administers_world out ev s) hI) (fun _ => trivial)
    (fun _ _ _ _ _ => trivial) (fun _ _ _ => trivial) (fun _ _ _ => trivial) h.start.1
    (h.drains_safe n h.start.2) sched
  exact hinv

end Valid

end Outline

end ArcRelay.Archive
