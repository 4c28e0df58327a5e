import ArcRelay.Memory.Extractor
import Mathlib.Data.List.Count

/-!
# The extraction watermark

Nothing is lost between the store and the memory backend without a trace: the watermark
of a session never goes back, and every message at or below it was dropped by the filter,
was in a chunk that the backend took, or lies in a range that was given up after repeated
failures.

Ids make this work.  A new message gets an id above every window that was ever read, so
what an ingest adds in the middle of a pass is never below the watermark the pass sets.
And a uuid that is marked as sent belongs to one row, so a message that is skipped as
sent is the message that was sent.

The invariant also keeps two accounts: how often a message may have been sent, and what
the passes that failed had in their windows.

* `Inv`: the invariant.
* `watermark_sound`: every message at or below the watermark is accounted for.
-/

namespace ArcRelay.Extract

open Interleave Prog Json Memory List Option Nat

/-! ### The invariant -/

/-- What may have become of a message below the watermark: the filter dropped it, a call
for a chunk with it succeeded, or its range was given up. -/
def Accounted (cfg : Config) (log : List Entry) (m : Message) : Prop :=
  cfg.keep m = false ∨
    (∃ c ids, .called c (.ok ids) ∈ log ∧ truncateOversized cfg.maxMessageChars m ∈ c.msgs) ∨
    ∃ after through, .poisoned after through ∈ log ∧ after < m.id ∧ m.id ≤ through

def Taken (cfg : Config) (log : List Entry) (m : Message) : Prop :=
  ∃ c ids, .called c (.ok ids) ∈ log ∧ truncateOversized cfg.maxMessageChars m ∈ c.msgs

def Ours (cfg : Config) (db : DB) (m : Message) : Prop :=
  m ∈ db.messages ∧ m.sessionID = cfg.sessionID

/-- A pass from `after` to `through` had all messages that were left to send. -/
structure Tried (cfg : Config) (db : DB) (log : List Entry) (after through : ℕ)
    (fresh : List Message) : Prop where
  bound : through < db.nextID
  all : ∀ m, Ours cfg db m → cfg.keep m = true → after < m.id → m.id ≤ through →
    Taken cfg log m ∨ m ∈ fresh

def taken (c : Chunk) : Except String (List String) → List Chunk
  | .ok _ => [c]
  | .error _ => []

def successes : List Entry → List Chunk
  | [] => []
  | .called c answer :: log => taken c answer ++ successes log
  | .poisoned _ _ :: log => successes log

def times (uuid : String) (chunks : List Chunk) : ℕ :=
  chunks.countP fun c => c.uuids.contains uuid

def State.forgotten (s : State) : List Chunk := s.lost.map (·.1)

/-- A pass that nothing from outside has cut has called for each of its chunks. -/
def Pass.Reached (cfg : Config) (p : Pass) : Prop :=
  p.cut = false → ∀ c ∈ chunksOf cfg p.fresh, c ∈ p.calls

structure Inv (cfg : Config) (s : State) : Prop where
  below : ∀ m, Ours cfg s.db m → m.id ≤ s.extractedThrough.getD 0 → Accounted cfg s.log m
  bound : s.extractedThrough.getD 0 < s.db.nextID
  recorded : ∀ r ∈ s.extractions, r.error = none →
    ∃ c ids, .called c (.ok ids) ∈ s.log ∧ r.chunkMsgUUIDs = c.uuids
  sent : ∀ c answer, .called c answer ∈ s.log → ∀ a ∈ c.msgs,
    ∃ m, Ours cfg s.db m ∧ a = truncateOversized cfg.maxMessageChars m
  /-- A message is sent once more only after a success that was not recorded. -/
  once : ∀ u ≠ "", times u (successes s.log) ≤ times u s.forgotten + 1
  counted : s.attempts = s.failures.length
  failures : ∀ p ∈ s.failures, Tried cfg s.db s.log (s.extractedThrough.getD 0) p.through p.fresh
  abandoned : ∀ a ∈ s.abandoned, cfg.poisonAfter ≤ a.passes.length ∧
    ∀ p ∈ a.passes, Tried cfg s.db s.log a.after p.through p.fresh
  reached : ∀ p ∈ s.failures ++ s.abandoned.flatMap (·.passes), p.Reached cfg
  poisoned : ∀ after through, .poisoned after through ∈ s.log →
    ∃ a ∈ s.abandoned, a.after = after ∧ a.through = through

/-- The store only gains rows, and gives them new ids. -/
structure Grows (db db' : DB) : Prop where
  messages : db.messages ⊆ db'.messages
  nextID : db.nextID ≤ db'.nextID
  fresh : ∀ m ∈ db'.messages, m ∈ db.messages ∨ db.nextID ≤ m.id

/-- What the others do between two steps of a pass: they add messages, and remove no row
that stands for a success. -/
structure Rely (s s' : State) : Prop where
  db : Grows s.db s'.db
  extractions : s'.extractions ⊆ s.extractions
  covered : ∀ u, covered s.extractions u = true → covered s'.extractions u = true
  others : s' = { s with db := s'.db, extractions := s'.extractions }

structure Later (s s' : State) : Prop where
  mark : ∀ t ∈ s.extractedThrough, ∃ t' ∈ s'.extractedThrough, t ≤ t'
  log : s.log <:+ s'.log

variable {cfg : Config} {log' : List Entry} {m : Message} {db db' : DB} {s s' : State}

theorem Taken.mono {log : List Entry} (h : Taken cfg log m) (hl : log ⊆ log') :
    Taken cfg log' m := by
  obtain ⟨c, ids, hcall, hmem⟩ := h
  exact ⟨c, ids, hl hcall, hmem⟩

theorem Accounted.mono {log : List Entry} (h : Accounted cfg log m) (hl : log ⊆ log') :
    Accounted cfg log' m := by
  rcases h with hdrop | htaken | ⟨after, through, hpoison, hrange⟩
  · exact .inl hdrop
  · exact .inr (.inl (Taken.mono htaken hl))
  · exact .inr (.inr ⟨after, through, hl hpoison, hrange⟩)

theorem Ours.mono (h : Ours cfg db m) (hg : Grows db db') : Ours cfg db' m := ⟨hg.messages h.1, h.2⟩

theorem Ours.old (h : Ours cfg db' m) (hg : Grows db db') (hid : m.id < db.nextID) :
    Ours cfg db m := by
  rcases hg.fresh m h.1 with hm | hm
  · exact ⟨hm, h.2⟩
  · omega

theorem Tried.mono {log : List Entry} {after through : ℕ} {fresh : List Message}
    (h : Tried cfg db log after through fresh) (hg : Grows db db') (hl : log ⊆ log') :
    Tried cfg db' log' after through fresh where
  bound := lt_of_lt_of_le h.bound hg.nextID
  all m hm hkeep hafter hid :=
    (h.all m (hm.old hg (lt_of_le_of_lt hid h.bound)) hkeep hafter hid).imp_left (·.mono hl)

theorem times_append (u : String) (l l' : List Chunk) :
    times u (l ++ l') = times u l + times u l' := countP_append

theorem times_taken_le (u : String) (c : Chunk) (answer : Except String (List String)) :
    times u (taken c answer) ≤ 1 := by
  cases answer with
  | ok ids => exact countP_le_length
  | error err => exact zero_le 1

theorem times_taken_of_notMem {u : String} {c : Chunk} (h : u ∉ c.uuids)
    (answer : Except String (List String)) : times u (taken c answer) = 0 := by
  cases answer with
  | ok ids => simpa [times, taken] using h
  | error err => rfl

@[simp] theorem successes_called (s : State) (c : Chunk) (answer : Except String (List String)) :
    successes (s.called c answer).log = taken c answer ++ successes s.log := rfl

@[simp] theorem forgotten_lose (s : State) (c : Chunk) (why : Loss)
    (answer : Except String (List String)) :
    (s.lose c why answer).forgotten = taken c answer ++ s.forgotten := by
  cases answer <;> rfl

@[simp] theorem pass_lose (s : State) (c : Chunk) (why : Loss)
    (answer : Except String (List String)) : (s.lose c why answer).pass = s.pass := by
  cases answer <;> rfl

theorem Grows.refl (db : DB) : Grows db db := ⟨fun _ h => h, le_rfl, fun _ h => .inl h⟩

theorem Grows.trans {a b c : DB} (hab : Grows a b) (hbc : Grows b c) : Grows a c := by
  refine ⟨fun m hm => hbc.messages (hab.messages hm), hab.nextID.trans hbc.nextID, ?_⟩
  intro m hm
  rcases hbc.fresh m hm with hm | hid
  · exact hab.fresh m hm
  · exact .inr (hab.nextID.trans hid)

theorem Rely.refl (s : State) : Rely s s := ⟨.refl _, fun _ h => h, fun _ h => h, rfl⟩

theorem Rely.trans (a b c : State) (hab : Rely a b) (hbc : Rely b c) : Rely a c := by
  refine ⟨hab.db.trans hbc.db, fun _ h => hab.extractions (hbc.extractions h),
    fun u h => hbc.covered u (hab.covered u h), ?_⟩
  rw [hbc.others, hab.others]

theorem Rely.extractedThrough (h : Rely s s') :
    s'.extractedThrough = s.extractedThrough := by rw [h.others]

theorem Rely.log (h : Rely s s') : s'.log = s.log := by rw [h.others]

theorem Later.trans (a b c : State) (hab : Later a b) (hbc : Later b c) : Later a c := by
  refine ⟨fun t ht => ?_, hab.log.trans hbc.log⟩
  obtain ⟨t', ht', hle⟩ := hab.mark t ht
  obtain ⟨t'', ht'', hle'⟩ := hbc.mark t' ht'
  exact ⟨t'', ht'', hle.trans hle'⟩

theorem Later.of_mark_eq (hmark : s'.extractedThrough = s.extractedThrough)
    (hlog : s.log <:+ s'.log) : Later s s' :=
  ⟨fun t ht => ⟨t, hmark ▸ ht, le_refl t⟩, hlog⟩

theorem Later.refl (s : State) : Later s s := .of_mark_eq rfl (suffix_refl _)

theorem Rely.later (h : Rely s s') : Later s s' :=
  .of_mark_eq h.extractedThrough (h.log ▸ suffix_refl _)

theorem Inv.rely (h : Inv cfg s) (hR : Rely s s') : Inv cfg s' := by
  obtain ⟨hdb, hext, -, hothers⟩ := hR
  rw [hothers]
  refine { h with
    below := ?_, bound := ?_, recorded := ?_, sent := ?_, failures := ?_, abandoned := ?_ }
  · intro m hm hid
    exact h.below m (hm.old hdb (lt_of_le_of_lt hid h.bound)) hid
  · exact lt_of_lt_of_le h.bound hdb.nextID
  · exact fun r hr => h.recorded r (hext hr)
  · intro c answer hc a ha
    obtain ⟨m, hm, heq⟩ := h.sent c answer hc a ha
    exact ⟨m, hm.mono hdb, heq⟩
  · exact fun p hp => (h.failures p hp).mono hdb fun _ he => he
  · intro a ha
    obtain ⟨hlen, htried⟩ := h.abandoned a ha
    exact ⟨hlen, fun p hp => (htried p hp).mono hdb fun _ he => he⟩

theorem Inv.accounted (h : Inv cfg s) {t : ℕ} (ht : t ∈ s.extractedThrough) (hm : Ours cfg s.db m)
    (hid : m.id ≤ t) : Accounted cfg s.log m := by
  refine h.below m hm ?_
  rw [mem_def.mp ht]
  exact hid

theorem grows_ingest (svc : Service) (db : DB) (c : IngestCall) : Grows db (ingest svc db c).1 := by
  rcases ingest_cases svc db c with ⟨e, he⟩ | ⟨msgs, events, hv, -, htables, -⟩
  · rw [he]
    exact .refl db
  have hmsgs : (ingest svc db c).1.messages =
      ((db.upsertSession (sessionOfCall c)).bulkInsert msgs).1.messages := by
    rw [htables]
    rfl
  have hnext : (ingest svc db c).1.nextID =
      ((db.upsertSession (sessionOfCall c)).bulkInsert msgs).1.nextID := by
    rw [htables]
    rfl
  refine ⟨?_, hnext ▸ Tables.nextID_le_bulkInsert (db.upsertSession (sessionOfCall c)) msgs, ?_⟩
  · rw [hmsgs]
    exact ((db.upsertSession (sessionOfCall c)).messages_bulkInsert msgs).1.subset
  intro m hm
  rw [hmsgs] at hm
  by_cases hold : m ∈ db.messages
  · exact .inl hold
  exact .inr (Tables.new_bulkInsert (t := db.upsertSession (sessionOfCall c)) db.ok.fresh hm hold).1

theorem world_rely (svc : Service) (ev : WorldEvent) (s : State) : Rely s (world svc ev s) := by
  cases ev with
  | ingest c => exact ⟨grows_ingest svc s.db c, fun _ h => h, fun _ h => h, rfl⟩
  | pruneErrors before => ?_
  refine ⟨.refl _, fun _ h => mem_of_mem_filter h, fun u hu => ?_, rfl⟩
  -- only rows with an error are cleared
  obtain ⟨r, hr, hrow⟩ := any_eq_true.mp hu
  refine any_eq_true.mpr ⟨r, mem_filter.mpr ⟨hr, ?_⟩, hrow⟩
  rw [Bool.and_eq_true, isNone_iff_eq_none] at hrow
  simp [hrow.1]

/-! ### The rules -/

variable {Q : β → State → Prop} {k : Except String α → Run β} {recorded : Except String Unit}
  {chunks : List Chunk} {sid : String} {after : ℕ} {limit : ℤ} {msgs : List Message}

abbrev Safe (cfg : Config) (Q : α → State → Prop) (p : Run α) (s : State) : Prop :=
  Prog.Safe (Inv cfg) Rely Later Q p s

theorem safe_pure {a : β} (h : ∀ s', Rely s s' → Inv cfg s' → Q a s') : Safe cfg Q (pure a) s := h

theorem safe_observe {f : Env → α} {k : α → Run β}
    (h : ∀ s', Rely s s' → Inv cfg s' → ∀ a, Safe cfg Q (k a) s') :
    Safe cfg Q (Prog.observe f >>= k) s :=
  safe_observe_bind Later.refl fun s' hR hI e => h s' hR hI (f e)

theorem safe_interrupt {ask : Env → Option String} {k : Option String → Run β}
    (h : ∀ s', Rely s s' → ∀ err, Safe cfg Q (k err) (s'.cutBy err)) :
    Safe cfg Q (interrupt ask >>= k) s :=
  safe_act_bind.mpr fun s' hR hI e =>
    ⟨{ hI with }, .of_mark_eq rfl (suffix_refl _), h s' hR (ask e)⟩

theorem safe_exec {f : State → State × α}
    (h : ∀ s', Rely s s' → Inv cfg s' →
      (∀ err, Safe cfg Q (k (.error err)) s') ∧
        Inv cfg (f s').1 ∧ Later s' (f s').1 ∧ Safe cfg Q (k (.ok (f s').2)) (f s').1) :
    Safe cfg Q (exec f >>= k) s :=
  safe_attempt_bind Later.refl fun s' hR hI => ⟨(h s' hR hI).1, fun _ => (h s' hR hI).2⟩

theorem safe_query {f : State → α}
    (h : ∀ s', Rely s s' → Inv cfg s' →
      (∀ err, Safe cfg Q (k (.error err)) s') ∧ Safe cfg Q (k (.ok (f s'))) s') :
    Safe cfg Q (query f >>= k) s :=
  safe_exec fun s' hR hI => ⟨(h s' hR hI).1, hI, .refl s', (h s' hR hI).2⟩

/-! ### A pass -/

/-- Every success is recorded, except those that were not and those of `flight`. -/
def Settled (flight : List Chunk) (s : State) : Prop :=
  ∀ u ≠ "", times u (successes s.log) ≤
    times u s.forgotten + (covered s.extractions u).toNat + times u flight

/-- No uuid of the chunks has been sent, except by calls that were not recorded. -/
def Unspent (chunks : List Chunk) (s : State) : Prop :=
  ∀ c ∈ chunks, ∀ u ∈ c.uuids, u ≠ "" → times u (successes s.log) ≤ times u s.forgotten

/-- In the middle of a pass over the messages up to `through`: the watermark has not
moved, and of the messages of the window only those in `fresh` are still to be sent. -/
structure Window (cfg : Config) (through : ℕ) (fresh : List Message) (s : State) : Prop where
  le : s.extractedThrough.getD 0 ≤ through
  rows : ∀ m ∈ fresh, Ours cfg s.db m
  tried : Tried cfg s.db s.log (s.extractedThrough.getD 0) through fresh

structure Underway (cfg : Config) (through : ℕ) (fresh : List Message)
    (flight left : List Chunk) (s : State) : Prop extends Window cfg through fresh s where
  begun : s.pass.through = through ∧ s.pass.fresh = fresh
  settled : Settled flight s
  unspent : Unspent left s
  reached : s.pass.cut = false → ∀ c ∈ chunksOf cfg fresh, c ∈ s.pass.calls ∨ c ∈ left

variable {through : ℕ} {fresh : List Message} {flight left : List Chunk} {c : Chunk}
  {answer : Except String (List String)} {sent : Sent} {t : Tables}

theorem Settled.rely (h : Settled flight s) (hR : Rely s s') : Settled flight s' := by
  obtain ⟨-, -, hcovered, hothers⟩ := hR
  rw [hothers]
  intro u hu
  refine (h u hu).trans (Nat.add_le_add_right (Nat.add_le_add_left ?_ _) _)
  cases hcov : covered s.extractions u with
  | false => exact Nat.zero_le _
  | true => rw [hcovered u hcov]

theorem safe_return {a : α} (h : Settled flight s) :
    Safe cfg (fun _ => Settled flight) (pure a) s :=
  safe_pure fun _ hR _ => h.rely hR

theorem Window.rely (h : Window cfg through fresh s) (hR : Rely s s') :
    Window cfg through fresh s' where
  le := hR.extractedThrough ▸ h.le
  rows m hm := (h.rows m hm).mono hR.db
  tried := by
    rw [hR.extractedThrough, hR.log]
    exact h.tried.mono hR.db fun _ he => he

theorem Window.later (h : Window cfg through fresh s) (hmark : s'.extractedThrough = some through)
    (hlog : s.log <:+ s'.log) : Later s s' := by
  refine ⟨fun t ht => ⟨through, hmark, ?_⟩, hlog⟩
  have hle := h.le
  rw [mem_def.mp ht] at hle
  exact hle

theorem Underway.rely (h : Underway cfg through fresh flight left s) (hR : Rely s s') :
    Underway cfg through fresh flight left s' where
  toWindow := h.toWindow.rely hR
  begun := by
    rw [hR.others]
    exact h.begun
  settled := h.settled.rely hR
  unspent := by
    rw [hR.others]
    exact h.unspent
  reached := by
    rw [hR.others]
    exact h.reached

theorem Underway.cutBy (h : Underway cfg through fresh flight left s) (err : Option String) :
    Underway cfg through fresh flight left (s.cutBy err) :=
  { h with reached := fun hcut => h.reached (Bool.or_eq_false_iff.mp hcut).1 }

/-- The chunks that are left may be passed over when the pass has been cut, and those it
has called for in any case. -/
theorem Underway.skip {left' : List Chunk} (h : Underway cfg through fresh flight left s)
    (hsub : left' ⊆ left)
    (hgone : s.pass.cut = false → ∀ c ∈ left, c ∈ s.pass.calls ∨ c ∈ left') :
    Underway cfg through fresh flight left' s :=
  { h with
    unspent := fun c hc => h.unspent c (hsub hc)
    reached := fun hcut c hc => (h.reached hcut c hc).elim .inl (hgone hcut c) }

theorem cut_cutBy (s : State) {err : Option String} (h : err.isSome) :
    (s.cutBy err).pass.cut = true := by
  rw [State.cutBy, h, Bool.or_true]

def FreshChunk (cfg : Config) (fresh : List Message) (c : Chunk) : Prop :=
  ∀ a ∈ c.msgs, ∃ m ∈ fresh, a = truncateOversized cfg.maxMessageChars m

def Apart (c : Chunk) (chunks : List Chunk) : Prop :=
  ∀ c' ∈ chunks, ∀ u ∈ c'.uuids, u ≠ "" → u ∉ c.uuids

theorem Underway.inv_called (h : Underway cfg through fresh flight (c :: left) s) (hI : Inv cfg s)
    (hc : FreshChunk cfg fresh c) (answer : Except String (List String)) :
    Inv cfg (s.called c answer) := by
  have hsub : s.log ⊆ (s.called c answer).log := subset_cons_self _ _
  refine { hI with
    below := fun m hm hid => (hI.below m hm hid).mono hsub
    recorded := ?_, sent := ?_, once := ?_
    failures := fun p hp => (hI.failures p hp).mono (.refl _) hsub
    abandoned := ?_, poisoned := ?_ }
  · intro r hr herr
    obtain ⟨c', ids, hcall, huuids⟩ := hI.recorded r hr herr
    exact ⟨c', ids, hsub hcall, huuids⟩
  · intro c' answer' hmem a ha
    rcases mem_cons.mp hmem with heq | hmem
    · cases heq
      obtain ⟨m, hm, rfl⟩ := hc a ha
      exact ⟨m, h.rows m hm, rfl⟩
    · exact hI.sent c' answer' hmem a ha
  · intro u hu
    rw [successes_called, times_append]
    by_cases huc : u ∈ c.uuids
    · have hnew := times_taken_le u c answer
      have hold : times u (successes s.log) ≤ times u s.forgotten :=
        h.unspent c (mem_cons_self ..) u huc hu
      exact (Nat.add_le_add hnew hold).trans (add_comm _ _).le
    · rw [times_taken_of_notMem huc, zero_add]
      exact hI.once u hu
  · intro a ha
    obtain ⟨hlen, htried⟩ := hI.abandoned a ha
    exact ⟨hlen, fun p hp => (htried p hp).mono (.refl _) hsub⟩
  · intro after through hmem
    rcases mem_cons.mp hmem with heq | hmem
    · cases heq
    · exact hI.poisoned after through hmem

theorem Underway.called {left' : List Chunk} (h : Underway cfg through fresh [] left s)
    (answer : Except String (List String)) (hsub : left' ⊆ left) (hleft : left ⊆ c :: left')
    (hapart : ∀ k ∈ taken c answer, Apart k left') :
    Underway cfg through fresh (taken c answer) left' (s.called c answer) where
  le := h.le
  rows := h.rows
  tried := h.tried.mono (.refl _) (subset_cons_self _ _)
  begun := h.begun
  settled := by
    intro u hu
    have hold : times u (successes s.log) ≤
        times u s.forgotten + (covered s.extractions u).toNat + 0 := h.settled u hu
    rw [successes_called, times_append, add_comm]
    exact Nat.add_le_add_right hold _
  unspent := by
    intro c' hc' u hu hne
    have hnone : times u (taken c answer) = 0 := by
      cases answer with
      | error err => rfl
      | ok ids =>
        exact times_taken_of_notMem (hapart c (mem_singleton_self c) c' hc' u hu hne) (.ok ids)
    rw [successes_called, times_append, hnone, zero_add]
    exact h.unspent c' (hsub hc') u hu hne
  reached := by
    intro hcut c' hc'
    rcases h.reached hcut c' hc' with hcalled | hc'
    · exact .inl (mem_cons_of_mem _ hcalled)
    rcases mem_cons.mp (hleft hc') with rfl | hc'
    · exact .inl (mem_cons_self ..)
    · exact .inr hc'

def Answered (c : Chunk) (answer : Except String (List String)) (s : State) : Prop :=
  ∀ ids, answer = .ok ids → .called c (.ok ids) ∈ s.log

/-- Without an answer the chunk was called for, or the pass was cut. -/
theorem unanswered_safe (err : String) (hu : Underway cfg through fresh [] (c :: left) s)
    (hgone : s.pass.cut = false → c ∈ s.pass.calls) :
    Safe cfg (fun answer s' =>
        Underway cfg through fresh (taken c answer) left s' ∧ Answered c answer s')
      (pure (.error err)) s := by
  have hskip : Underway cfg through fresh [] left s := by
    refine hu.skip (subset_cons_self _ _) fun hcut c' hc' => ?_
    rcases mem_cons.mp hc' with rfl | hc'
    · exact .inl (hgone hcut)
    · exact .inr hc'
  exact safe_pure fun s' hR _ => ⟨hskip.rely hR, fun _ h => by cases h⟩

theorem cut_safe (err : String) (hu : Underway cfg through fresh [] (c :: left) s) :
    Safe cfg (fun answer s' =>
        Underway cfg through fresh (taken c answer) left s' ∧ Answered c answer s')
      (pure (.error err)) (s.cutBy (some err)) := by
  refine unanswered_safe err (hu.cutBy _) fun hnot => ?_
  rw [cut_cutBy s rfl] at hnot
  cases hnot

theorem callAttempts_safe (hc : FreshChunk cfg fresh c) (hapart : Apart c left) (n : ℕ)
    (lastErr : String) (hu : Underway cfg through fresh [] (c :: left) s)
    (hn : n = 0 → c ∈ s.pass.calls) :
    Safe cfg (fun answer s' =>
        Underway cfg through fresh (taken c answer) left s' ∧ Answered c answer s')
      (callAttempts c lastErr n) s := by
  induction n generalizing lastErr s with
  | zero => exact unanswered_safe lastErr hu fun _ => hn rfl
  | succ left' ih => ?_
  refine safe_interrupt fun s1 hR1 ctxErr => ?_
  have hu1 := hu.rely hR1
  cases ctxErr with
  | some err => exact cut_safe err hu1
  | none => ?_
  refine safe_interrupt fun s2 hR2 wait => ?_
  have hu2 := (hu1.cutBy none).rely hR2
  cases wait with
  | some err => exact cut_safe err hu2
  | none => ?_
  refine safe_act_bind.mpr fun s3 hR3 hI3 e => ?_
  have hu3 := (hu2.cutBy none).rely hR3
  refine ⟨hu3.inv_called hI3 hc e.call, .of_mark_eq rfl (suffix_cons _ _), ?_⟩
  cases e.call with
  | ok ids =>
    have hcalled : Underway cfg through fresh (taken c (.ok ids)) left (s3.called c (.ok ids)) := by
      refine hu3.called _ (subset_cons_self _ _) (fun _ h => h) fun k hk => ?_
      rw [taken, mem_singleton] at hk
      exact hk ▸ hapart
    refine safe_pure fun s' hR _ => ⟨hcalled.rely hR, fun ids' hids => ?_⟩
    cases hids
    rw [hR.log]
    exact mem_cons_self ..
  | error err =>
    have hcalled : Underway cfg through fresh [] (c :: left) (s3.called c (.error err)) :=
      hu3.called (.error err) (fun _ h => h) (subset_cons_self _ _) fun _ h =>
        absurd h not_mem_nil
    have hnow : c ∈ (s3.called c (.error err)).pass.calls := mem_cons_self ..
    dsimp only
    split
    · exact unanswered_safe err hcalled fun _ => hnow
    split
    · exact ih err hcalled fun _ => hnow
    refine safe_interrupt fun s4 hR4 stop => ?_
    cases stop with
    | some stop => exact cut_safe stop (hcalled.rely hR4)
    | none =>
      refine ih err ((hcalled.rely hR4).cutBy none) fun _ => ?_
      rw [hR4.others]
      exact hnow

theorem Underway.lose (h : Underway cfg through fresh (taken c answer) left s) (hI : Inv cfg s)
    (why : Loss) :
    Inv cfg (s.lose c why answer) ∧ Later s (s.lose c why answer) ∧
      Underway cfg through fresh [] left (s.lose c why answer) := by
  have hsame : s.lose c why answer = { s with lost := (s.lose c why answer).lost } := by
    cases answer <;> rfl
  have hmore : ∀ u, times u s.forgotten ≤ times u (s.lose c why answer).forgotten := by
    intro u
    rw [forgotten_lose, times_append]
    exact le_add_left _ _
  have hlog : (s.lose c why answer).log = s.log := by rw [hsame]
  refine ⟨?_, .of_mark_eq (by rw [hsame]) (hlog ▸ suffix_refl _), ?_⟩
  · rw [hsame] at hmore ⊢
    exact { hI with once := fun u hu => (hI.once u hu).trans (Nat.add_le_add_right (hmore u) 1) }
  have hsettled : Settled [] (s.lose c why answer) := by
    intro u hu
    have hold := h.settled u hu
    rw [forgotten_lose, times_append, hlog]
    have hcov : (s.lose c why answer).extractions = s.extractions := by rw [hsame]
    rw [hcov]
    omega
  rw [hsame] at hmore hsettled ⊢
  exact { h with
    settled := hsettled
    unspent := fun c' hc' u hu hne => (h.unspent c' hc' u hu hne).trans (hmore u) }

theorem Sent.add_ok (h : (sent.add answer recorded).failed = false) :
    sent.failed = false ∧ ∃ ids, answer = .ok ids := by
  cases answer with
  | error err => cases recorded <;> cases h
  | ok ids => ?_
  cases recorded with
  | error err => cases h
  | ok u => exact ⟨h, ids, rfl⟩

/-- From the account `sent` to the account `sent'`: when nothing failed and the deadline
did not pass, each chunk was sent by a call that succeeded. -/
def Done (sent : Sent) (chunks : List Chunk) (sent' : Sent) (s : State) : Prop :=
  sent'.failed = false → sent'.aborted = false →
    sent.failed = false ∧ ∀ c ∈ chunks, ∃ ids, .called c (.ok ids) ∈ s.log

theorem Done.cons {sent' : Sent} (h : Done (sent.add answer recorded) chunks sent' s')
    (hcall : Answered c answer s') : Done sent (c :: chunks) sent' s' := by
  intro hfailed haborted
  obtain ⟨hadd, hall⟩ := h hfailed haborted
  obtain ⟨hsent, ids, hids⟩ := Sent.add_ok hadd
  refine ⟨hsent, fun c' hc' => ?_⟩
  rcases mem_cons.mp hc' with rfl | hc'
  · exact ⟨ids, hcall ids hids⟩
  · exact hall c' hc'

theorem covered_addRow (l : List MemoryExtraction) (u : String) (toUpper : String → String)
    (now : ℤ) (i : ℕ) (c : Chunk) (answer : Except String (List String)) :
    covered (l ++ [extractionRow toUpper now i c answer]) u =
      (covered l u || decide (0 < times u (taken c answer))) := by
  unfold covered
  rw [any_append]
  congr 1
  cases answer with
  | ok ids => by_cases hu : u ∈ c.uuids <;> simp [extractionRow, times, taken, hu]
  | error err => simp [extractionRow, times, taken]

theorem Underway.addRow (h : Underway cfg through fresh (taken c answer) left s) (hI : Inv cfg s)
    (hcall : Answered c answer s) (now : ℤ) (i : ℕ) :
    let s' := { s with extractions := s.extractions ++ [extractionRow cfg.toUpper now i c answer] }
    Inv cfg s' ∧ Underway cfg through fresh [] left s' := by
  refine ⟨{ hI with recorded := ?_ }, { h with settled := ?_ }⟩
  · intro r hr herr
    rcases mem_append.mp hr with hr | hr
    · exact hI.recorded r hr herr
    rw [mem_singleton] at hr
    subst hr
    cases answer with
    | ok ids => exact ⟨c, ids, hcall ids rfl, rfl⟩
    | error err => cases herr
  · intro u hu
    have hold := h.settled u hu
    have honce := hI.once u hu
    rw [covered_addRow]
    by_cases hin : 0 < times u (taken c answer)
    · rw [decide_eq_true hin, Bool.or_true]
      exact honce
    rw [decide_eq_false hin, Bool.or_false]
    rw [Nat.eq_zero_of_not_pos hin] at hold
    exact hold

theorem abort_safe (sent : Sent) (chunks : List Chunk)
    (hu : Underway cfg through fresh [] left s) (hcut : s.pass.cut = true) :
    Safe cfg (fun sent' s' => Underway cfg through fresh [] [] s' ∧ Done sent chunks sent' s')
      (pure { sent with aborted := true }) s := by
  refine safe_pure fun s' hR _ => ⟨Underway.rely ?_ hR, nofun⟩
  refine hu.skip (nil_subset _) fun hnot => ?_
  rw [hcut] at hnot
  cases hnot

/-- **The chunks of a pass.** -/
theorem sendChunks_safe (now : ℤ) (hc : ∀ c ∈ chunks, FreshChunk cfg fresh c)
    (hapart : chunks.Pairwise fun c c' => ∀ u ∈ c'.uuids, u ≠ "" → u ∉ c.uuids) (i : ℕ)
    (sent : Sent) (hu : Underway cfg through fresh [] chunks s) :
    Safe cfg (fun sent' s' => Underway cfg through fresh [] [] s' ∧ Done sent chunks sent' s')
      (sendChunks cfg.toUpper now i sent chunks) s := by
  induction chunks generalizing i sent s with
  | nil => exact safe_pure fun s' hR _ => ⟨hu.rely hR, fun hf _ => ⟨hf, by simp⟩⟩
  | cons c chunks ih => ?_
  obtain ⟨hhead, htail⟩ := pairwise_cons.mp hapart
  -- the other chunks, whatever became of the row of this one
  have hrest : ∀ (s : State) (answer : Except String (List String))
      (recorded : Except String Unit), Underway cfg through fresh [] chunks s →
      Answered c answer s →
      Safe cfg (fun sent' s' =>
          Underway cfg through fresh [] [] s' ∧ Done sent (c :: chunks) sent' s')
        (sendChunks cfg.toUpper now (i + 1) (sent.add answer recorded) chunks) s := by
    intro s answer recorded hu hcall
    have hsafe := ih (fun c' hc' => hc c' (mem_cons_of_mem _ hc')) htail (i + 1)
      (sent.add answer recorded) hu
    refine Prog.Safe.weaken (hsafe.within Later.trans (fun _ _ h => h.later) (fun _ _ h => h)
      (Later.refl s)) ?_
    rintro sent' s' - ⟨hlater, hu', hdone⟩
    exact ⟨hu', hdone.cons fun ids hids => hlater.log.subset (hcall ids hids)⟩
  refine safe_interrupt fun s1 hR1 ctxErr => ?_
  have hu1 := (hu.rely hR1).cutBy ctxErr
  split
  · next hsome => exact abort_safe sent _ hu1 (cut_cutBy s1 hsome)
  refine safe_bind Rely.refl
    (callAttempts_safe (hc c (mem_cons_self ..)) hhead 2 "" hu1 nofun) ?_
  rintro answer s2 - ⟨hu2, hcall2⟩
  refine safe_act_bind.mpr fun s3 hR3 hI3 e3 => ?_
  have hu3 := hu2.rely hR3
  have hcall3 : Answered c answer s3 := fun ids hids => hR3.log ▸ hcall2 ids hids
  cases e3.ctxErr with
  | some err =>
    -- the deadline has come: what the call returned is not looked at
    have hI3' : Inv cfg (s3.cutBy (some err)) := { hI3 with }
    obtain ⟨hinv, hlater, hlost⟩ := (hu3.cutBy (some err)).lose hI3' .deadline
    have hcut : ((s3.cutBy (some err)).lose c .deadline answer).pass.cut = true := by
      rw [pass_lose]
      exact cut_cutBy s3 rfl
    exact ⟨hinv, ⟨hlater.mark, hlater.log⟩, abort_safe sent _ hlost hcut⟩
  | none => ?_
  refine ⟨hI3, .refl s3, safe_act_bind.mpr fun s4 hR4 hI4 e4 => ?_⟩
  have hu4 := hu3.rely hR4
  have hcall4 : Answered c answer s4 := fun ids hids => hR4.log ▸ hcall3 ids hids
  cases e4.storeErr with
  | some err =>
    obtain ⟨hinv, hlater, hlost⟩ := hu4.lose hI4 .insert
    have hcall : Answered c answer (s4.lose c .insert answer) :=
      fun ids hids => hlater.log.subset (hcall4 ids hids)
    exact ⟨hinv, hlater, hrest _ answer _ hlost hcall⟩
  | none =>
    obtain ⟨hinv, hrow⟩ := hu4.addRow hI4 hcall4 now i
    exact ⟨hinv, .of_mark_eq rfl (suffix_refl _), hrest _ answer _ hrow hcall4⟩

theorem Window.complete (h : Window cfg through fresh s) (hI : Inv cfg s)
    (hall : ∀ c ∈ chunksOf cfg fresh, ∃ ids, .called c (.ok ids) ∈ s.log) (now : ℤ) :
    Inv cfg (completeExtractPass through now s) ∧ Later s (completeExtractPass through now s) := by
  refine ⟨{ hI with
    below := fun m hm hid => ?_, bound := h.tried.bound
    counted := rfl, failures := nofun
    reached := fun p hp => hI.reached p (mem_append_right _ hp) },
    h.later rfl (suffix_refl _)⟩
  by_cases hold : m.id ≤ s.extractedThrough.getD 0
  · exact hI.below m hm hold
  cases hkeep : cfg.keep m with
  | false => exact .inl hkeep
  | true => ?_
  refine .inr (.inl ?_)
  rcases h.tried.all m hm hkeep (Nat.lt_of_not_le hold) hid with htaken | hfresh
  · exact htaken
  have hmem : truncateOversized cfg.maxMessageChars m ∈
      fresh.map (truncateOversized cfg.maxMessageChars) := mem_map_of_mem hfresh
  obtain ⟨c, hc, hin⟩ := (mem_chunkMessages cfg.toUpper cfg.chunkTarget _ _).mpr hmem
  obtain ⟨ids, hcall⟩ := hall c hc
  exact ⟨c, ids, hcall, hin⟩

theorem Underway.fail (h : Underway cfg through fresh [] [] s) (hI : Inv cfg s) :
    Inv cfg (failExtractPass s).1 := by
  obtain ⟨rfl, rfl⟩ := h.begun
  refine { hI with counted := ?_, failures := ?_, reached := ?_ }
  · have hold := hI.counted
    simp only [failExtractPass, length_cons]
    omega
  · intro p hp
    rcases mem_cons.mp hp with rfl | hp
    · exact h.tried
    · exact hI.failures p hp
  · intro p hp
    rcases mem_cons.mp hp with rfl | hp
    · exact fun hcut c hc => (h.reached hcut c hc).resolve_right not_mem_nil
    · exact hI.reached p hp

theorem Window.poison (h : Window cfg through fresh s) (hI : Inv cfg s)
    (hcount : cfg.poisonAfter ≤ s.attempts) (now : ℤ) :
    Inv cfg (poisonExtractRange through now s) ∧ Later s (poisonExtractRange through now s) := by
  have hsub : s.log ⊆ (poisonExtractRange through now s).log := subset_cons_self _ _
  refine ⟨{ hI with
    below := ?_, bound := h.tried.bound, recorded := ?_, sent := ?_, counted := rfl
    failures := nofun
    abandoned := ?_, poisoned := ?_ }, h.later rfl (suffix_cons _ _)⟩
  · intro m hm hid
    by_cases hold : m.id ≤ s.extractedThrough.getD 0
    · exact (hI.below m hm hold).mono hsub
    · exact .inr (.inr ⟨_, _, mem_cons_self .., Nat.lt_of_not_le hold, hid⟩)
  · intro r hr herr
    obtain ⟨c, ids, hcall, huuids⟩ := hI.recorded r hr herr
    exact ⟨c, ids, hsub hcall, huuids⟩
  · intro c answer hc
    rcases mem_cons.mp hc with heq | hc
    · cases heq
    · exact hI.sent c answer hc
  · intro a ha
    rcases mem_cons.mp ha with rfl | ha
    · rw [hI.counted] at hcount
      exact ⟨hcount, fun p hp => (hI.failures p hp).mono (.refl _) hsub⟩
    · obtain ⟨hlen, htried⟩ := hI.abandoned a ha
      exact ⟨hlen, fun p hp => (htried p hp).mono (.refl _) hsub⟩
  · intro after through' hmem
    rcases mem_cons.mp hmem with heq | hmem
    · cases heq
      exact ⟨_, mem_cons_self .., rfl, rfl⟩
    · obtain ⟨a, ha, hrange⟩ := hI.poisoned after through' hmem
      exact ⟨a, mem_cons_of_mem _ ha, hrange⟩

theorem settlePass_safe (now : ℤ) (hu : Underway cfg through fresh [] [] s)
    (hdone : Done {} (chunksOf cfg fresh) sent s) :
    Safe cfg (fun _ => Settled []) (settlePass cfg through now sent) s := by
  unfold settlePass
  split
  · -- the pass has failed: it is counted, and the range given up once too often
    refine safe_exec fun s1 hR1 hI1 => ?_
    have hu1 := hu.rely hR1
    refine ⟨fun err => safe_return hu1.settled, hu1.fail hI1,
      .of_mark_eq rfl (suffix_refl _), ?_⟩
    have hfail : Underway cfg through fresh [] [] (failExtractPass s1).1 := { hu1 with }
    dsimp only
    split
    · next hcount =>
      refine safe_exec fun s2 hR2 hI2 => ?_
      have hu2 := hfail.rely hR2
      have hcount2 : cfg.poisonAfter ≤ s2.attempts := by
        rw [hR2.others]
        exact hcount
      obtain ⟨hinv, hlater⟩ := hu2.poison hI2 hcount2 now
      exact ⟨fun err => safe_return hu2.settled, hinv, hlater, safe_return hu2.settled⟩
    · exact safe_return hfail.settled
  · next hok =>
    rw [Bool.or_eq_true, not_or, Bool.not_eq_true, Bool.not_eq_true] at hok
    refine safe_exec fun s1 hR1 hI1 => ?_
    have hu1 := hu.rely hR1
    have hall : ∀ c ∈ chunksOf cfg fresh, ∃ ids, .called c (.ok ids) ∈ s1.log := by
      rw [hR1.log]
      exact (hdone hok.1 hok.2).2
    obtain ⟨hinv, hlater⟩ := hu1.complete hI1 hall now
    exact ⟨fun err => safe_return hu1.settled, hinv, hlater, safe_return hu1.settled⟩

theorem freshChunk_of_mem (hc : c ∈ chunksOf cfg fresh) : FreshChunk cfg fresh c := by
  intro a ha
  obtain ⟨m, hm, rfl⟩ := mem_map.mp
    ((mem_chunkMessages cfg.toUpper cfg.chunkTarget _ a).mp ⟨c, hc, ha⟩)
  exact ⟨m, hm, rfl⟩

theorem uuid_truncateOversized (max : ℤ) (m : Message) :
    (truncateOversized max m).uuid = m.uuid := by
  unfold truncateOversized
  split
  · rfl
  · rfl

theorem FreshChunk.uuid (hc : FreshChunk cfg fresh c) {u : String} (hu : u ∈ c.uuids) :
    ∃ m ∈ fresh, m.uuid = u := by
  obtain ⟨a, ha, rfl⟩ := mem_map.mp hu
  obtain ⟨m, hm, rfl⟩ := hc a ha
  exact ⟨m, hm, (uuid_truncateOversized _ m).symm⟩

theorem chunksOf_apart (h : fresh.Pairwise fun a b => b.uuid ≠ "" → b.uuid ≠ a.uuid) :
    (chunksOf cfg fresh).Pairwise fun c c' => ∀ u ∈ c'.uuids, u ≠ "" → u ∉ c.uuids := by
  have hmsgs : ((chunksOf cfg fresh).flatMap (·.msgs)).Pairwise
      fun a b => b.uuid ≠ "" → b.uuid ≠ a.uuid := by
    unfold chunksOf
    rw [flatMap_chunkMessages, pairwise_map]
    simpa only [uuid_truncateOversized] using h
  refine (pairwise_flatMap.mp hmsgs).2.imp fun {c c'} hcc u hu hne hmem => ?_
  obtain ⟨b, hb, rfl⟩ := mem_map.mp hu
  obtain ⟨a, ha, hab⟩ := mem_map.mp hmem
  exact hcc a ha b hb hne hab.symm

theorem sendFresh_safe (result : ExtractResult) (hw : Window cfg through fresh s)
    (hsettled : Settled [] s) (hdistinct : fresh.Pairwise fun a b => b.uuid ≠ "" → b.uuid ≠ a.uuid)
    (hnew : ∀ m ∈ fresh, m.uuid ≠ "" → times m.uuid (successes s.log) ≤ times m.uuid s.forgotten) :
    Safe cfg (fun _ => Settled []) (sendFresh cfg through fresh result) s := by
  refine safe_observe fun s1 hR1 _ now => ?_
  have hw1 := hw.rely hR1
  have hsettled1 := hsettled.rely hR1
  split
  · next hnone =>
    -- nothing to send: the watermark moves without a call
    refine safe_exec fun s2 hR2 hI2 => ?_
    have hsettled2 := hsettled1.rely hR2
    have hchunks : chunksOf cfg fresh = [] := by
      rw [hnone]
      rfl
    obtain ⟨hinv, hlater⟩ := (hw1.rely hR2).complete hI2 (by simp [hchunks]) now
    exact ⟨fun err => safe_return hsettled2, hinv, hlater, safe_return hsettled2⟩
  refine safe_observe fun s2 hR2 _ up => ?_
  split
  · exact safe_return (hsettled1.rely hR2)
  refine safe_exec fun s3 hR3 hI3 => ?_
  have hR : Rely s s3 := Rely.trans _ _ _ hR1 (Rely.trans _ _ _ hR2 hR3)
  have hsettled3 := hsettled.rely hR
  have hunspent : Unspent (chunksOf cfg fresh) s3 := by
    intro c hc u hu hne
    obtain ⟨m, hm, rfl⟩ := (freshChunk_of_mem hc).uuid hu
    rw [hR.others]
    exact hnew m hm hne
  have hbegun : Underway cfg through fresh [] (chunksOf cfg fresh)
      (beginExtractAttempt through fresh now s3) :=
    { hw.rely hR with
      begun := ⟨rfl, rfl⟩, settled := hsettled3, unspent := hunspent
      reached := fun _ _ hc => .inr hc }
  refine ⟨fun err => safe_return hsettled3, { hI3 with }, .of_mark_eq rfl (suffix_refl _), ?_⟩
  refine safe_bind Rely.refl (sendChunks_safe now (fun c hc => freshChunk_of_mem hc)
    (chunksOf_apart hdistinct) 0 {} hbegun) ?_
  rintro sent s4 - ⟨hu4, hdone⟩
  refine safe_bind Rely.refl (settlePass_safe now hu4 hdone) ?_
  rintro outcome s5 - hsettled5
  cases outcome with
  | error _ | ok _ => exact safe_return hsettled5

/-! ### The window a pass reads -/

theorem mem_getSessionRange (ht : t.Ok) {last : Message}
    (hlast : (getSessionRange t sid after limit).getLast? = some last) (hm : m ∈ t.messages)
    (hsid : m.sessionID = sid) (hafter : after < m.id) (hid : m.id ≤ last.id) :
    m ∈ getSessionRange t sid after limit := by
  set n := if limit ≤ 0 then 400 else limit.toNat
  set l := t.messages.filter fun m => m.sessionID = sid ∧ after < m.id with hl
  have hml : m ∈ l := by
    rw [hl, mem_filter]
    exact ⟨hm, by simp [hsid, hafter]⟩
  rw [← take_append_drop n l] at hml
  rcases mem_append.mp hml with htake | hdrop
  · exact htake
  -- a message behind the window has a larger id than the last one in it
  have hpw : (l.take n ++ l.drop n).Pairwise fun a b => a.id < b.id := by
    rw [take_append_drop]
    exact ht.ids.filter _
  have hlt := (pairwise_append.mp hpw).2.2 last (mem_of_getLast? hlast) m hdrop
  omega

theorem of_mem_getSessionRange (h : m ∈ getSessionRange t sid after limit) :
    m ∈ t.messages ∧ m.sessionID = sid ∧ after < m.id := by
  have hm := mem_filter.mp (mem_of_mem_take h)
  have hcond : m.sessionID = sid ∧ after < m.id := by simpa using hm.2
  exact ⟨hm.1, hcond⟩

theorem taken_of_covered (hI : Inv cfg s) (hm : Ours cfg s.db m) (huuid : m.uuid ≠ "")
    (hcov : covered s.extractions m.uuid = true) : Taken cfg s.log m := by
  obtain ⟨r, hr, hrow⟩ := any_eq_true.mp hcov
  rw [Bool.and_eq_true, isNone_iff_eq_none, contains_iff_mem] at hrow
  obtain ⟨c, ids, hcall, huuids⟩ := hI.recorded r hr hrow.1
  rw [huuids] at hrow
  obtain ⟨a, ha, hau⟩ := mem_map.mp hrow.2
  obtain ⟨m', hm', rfl⟩ := hI.sent c _ hcall a ha
  have hkey : m'.uuid = m.uuid := by
    rw [← hau]
    exact (uuid_truncateOversized _ m').symm
  have hsame : m = m' :=
    s.db.ok.unique hm.1 hm'.1 ⟨huuid, hm.2.trans hm'.2.symm, hkey.symm⟩
  subst hsame
  exact ⟨c, ids, hcall, ha⟩

theorem mem_freshMessages {extractions : List MemoryExtraction} :
    m ∈ freshMessages cfg extractions msgs ↔
      m ∈ msgs ∧ cfg.keep m = true ∧ (m.uuid = "" ∨ covered extractions m.uuid = false) := by
  unfold freshMessages
  rw [mem_filter, mem_filter, and_assoc]
  simp

theorem taken_or_fresh (hI : Inv cfg s) (hm : Ours cfg s.db m) (hkeep : cfg.keep m = true)
    (hmem : m ∈ msgs) : Taken cfg s.log m ∨ m ∈ freshMessages cfg s.extractions msgs := by
  by_cases hnew : m.uuid = "" ∨ covered s.extractions m.uuid = false
  · exact .inr (mem_freshMessages.mpr ⟨hmem, hkeep, hnew⟩)
  rw [not_or, Bool.not_eq_false] at hnew
  exact .inl (taken_of_covered hI hm hnew.1 hnew.2)

theorem distinct_getSessionRange (ht : t.Ok) (sid : String) (after : ℕ) (limit : ℤ) :
    (getSessionRange t sid after limit).Pairwise fun a b => b.uuid ≠ "" → b.uuid ≠ a.uuid := by
  have hsub : (getSessionRange t sid after limit).Sublist t.messages :=
    (take_sublist _ _).trans filter_sublist
  refine (ht.uuidKey.sublist hsub).imp_of_mem fun {a b} ha hb hkey hne heq => ?_
  have hsame : a.sessionID = b.sessionID :=
    (of_mem_getSessionRange ha).2.1.trans (of_mem_getSessionRange hb).2.1.symm
  exact hkey ⟨heq ▸ hne, hsame, heq.symm⟩

/-- **A pass keeps the invariant**, whatever fails in it. -/
theorem extract_safe (cfg : Config) (h : Settled [] s) :
    Safe cfg (fun _ => Settled []) (extract cfg) s := by
  unfold extract
  split
  · exact safe_return h
  refine safe_query fun s1 hR1 _ => ?_
  have h1 := h.rely hR1
  refine ⟨fun err => safe_return h1, ?_⟩
  split
  · exact safe_return h1
  · exact safe_return h1
  refine safe_query fun s2 hR2 hI2 => ?_
  have h2 := h1.rely hR2
  refine ⟨fun err => safe_return h2, ?_⟩
  refine safe_query fun s3 hR3 hI3 => ?_
  have h3 := h2.rely hR3
  refine ⟨fun err => safe_return h3, ?_⟩
  rw [← hR3.extractedThrough]
  generalize hmsgs : getSessionRange s3.db.toTables cfg.sessionID (s3.extractedThrough.getD 0)
    cfg.passLimit = msgs
  dsimp only
  cases hlast : msgs.getLast? with
  | none => exact safe_return h3
  | some last => ?_
  refine safe_query fun s4 hR4 hI4 => ?_
  have h4 := h3.rely hR4
  refine ⟨fun err => safe_return h4, ?_⟩
  have hrow : ∀ m ∈ msgs, Ours cfg s3.db m ∧ s3.extractedThrough.getD 0 < m.id := by
    intro m hm
    rw [← hmsgs] at hm
    obtain ⟨hmem, hsid, hafter⟩ := of_mem_getSessionRange hm
    exact ⟨⟨hmem, hsid⟩, hafter⟩
  have hlast3 := hrow last (mem_of_getLast? hlast)
  have hlt : last.id < s3.db.nextID := s3.db.ok.fresh last hlast3.1.1
  refine sendFresh_safe _ ⟨?_, ?_, lt_of_lt_of_le hlt hR4.db.nextID, ?_⟩ h4 ?_ ?_
  · rw [hR4.extractedThrough]
    exact hlast3.2.le
  · intro m hm
    exact (hrow m (mem_freshMessages.mp hm).1).1.mono hR4.db
  · intro m hm hkeep hafter hid
    -- what was ingested since the window was read has an id above it
    have hold := hm.old hR4.db (lt_of_le_of_lt hid hlt)
    rw [hR4.extractedThrough] at hafter
    refine taken_or_fresh hI4 hm hkeep ?_
    rw [← hmsgs] at hlast ⊢
    exact mem_getSessionRange s3.db.ok hlast hold.1 hold.2 hafter hid
  · have hsub : (freshMessages cfg s4.extractions msgs).Sublist msgs :=
      filter_sublist.trans filter_sublist
    rw [← hmsgs] at hsub ⊢
    exact (distinct_getSessionRange s3.db.ok _ _ _).sublist hsub
  · intro m hm hne
    have hcov := ((mem_freshMessages.mp hm).2.2).resolve_left hne
    have hle := h4 m.uuid hne
    rw [hcov] at hle
    exact hle

theorem passes_safe (cfg : Config) (n : ℕ) (h : Settled [] s) :
    Safe cfg (fun _ => Settled []) (passes cfg n) s := by
  induction n generalizing s with
  | zero => exact safe_return h
  | succ n ih => exact safe_bind Rely.refl (extract_safe cfg h) fun _ s' _ h' => ih h'

/-! ### Every run -/

def start (cfg : Config) (n : ℕ) : Pool State Env Unit := ⟨{ db := DB.empty }, [passes cfg n]⟩

theorem inv_start (cfg : Config) : Inv cfg { db := DB.empty } where
  below _ hm := absurd hm.1 not_mem_nil
  bound := Nat.zero_lt_one
  recorded _ hr := absurd hr not_mem_nil
  sent _ _ hc := absurd hc not_mem_nil
  once _ _ := zero_le _
  counted := rfl
  failures _ hp := absurd hp not_mem_nil
  abandoned _ ha := absurd ha not_mem_nil
  reached _ hp := absurd hp not_mem_nil
  poisoned _ _ hp := absurd hp not_mem_nil

theorem settled_start : Settled [] { db := DB.empty } := fun _ _ => zero_le _

theorem exec_passes (svc : Service) {p : Run Unit} (hI : Inv cfg s)
    (hp : Safe cfg (fun _ => Settled []) p s) (sched : List (Event WorldEvent Env)) :
    ∃ p', ((Pool.mk s [p]).exec (world svc) sched).threads = [p'] ∧
      Inv cfg ((Pool.mk s [p]).exec (world svc) sched).state ∧
      Safe cfg (fun _ => Settled []) p' ((Pool.mk s [p]).exec (world svc) sched).state ∧
      Later s ((Pool.mk s [p]).exec (world svc) sched).state :=
  Pool.exec_single Rely.refl Rely.trans
    (fun ev s hI => ⟨hI.rely (world_rely svc ev s), world_rely svc ev s⟩)
    Later.refl Later.trans (fun _ _ h => h) (fun _ _ h => h.later) hI hp sched

/-- **The invariant along every run** of passes and ingests. -/
theorem inv_exec (svc : Service) (cfg : Config) (n : ℕ) (sched : List (Event WorldEvent Env)) :
    Inv cfg ((start cfg n).exec (world svc) sched).state := by
  obtain ⟨-, -, hinv, -, -⟩ :=
    exec_passes svc (inv_start cfg) (passes_safe cfg n settled_start) sched
  exact hinv

/-- **The watermark is sound**: in every run of passes and ingests, whatever the filter
keeps and whatever fails, the watermark never goes back, and every message of the session
at or below it was dropped by the filter, was in a chunk that was sent, or lies in a
range that was given up. -/
theorem watermark_sound (svc : Service) (cfg : Config) (n : ℕ)
    (sched sched' : List (Event WorldEvent Env)) :
    let before := ((start cfg n).exec (world svc) sched).state
    let after := (((start cfg n).exec (world svc) sched).exec (world svc) sched').state
    (∀ t ∈ before.extractedThrough, ∃ t' ∈ after.extractedThrough, t ≤ t') ∧
      ∀ t ∈ after.extractedThrough, ∀ m ∈ after.db.messages, m.sessionID = cfg.sessionID →
        m.id ≤ t → Accounted cfg after.log m := by
  obtain ⟨p, hthreads, hinv, hsafe, -⟩ :=
    exec_passes svc (inv_start cfg) (passes_safe cfg n settled_start) sched
  have hpool : (start cfg n).exec (world svc) sched =
      ⟨((start cfg n).exec (world svc) sched).state, [p]⟩ := by
    rw [← hthreads]
    rfl
  obtain ⟨-, -, hinv', -, hlater⟩ := exec_passes svc hinv hsafe sched'
  rw [hpool]
  exact ⟨hlater.mark, fun t ht m hm hsid hid => hinv'.accounted ht ⟨hm, hsid⟩ hid⟩

end ArcRelay.Extract
