import ArcRelay.Archive.Outline

/-!
# What the archive queue loses

A payload that was accepted should leave the queue in two ways only: an endpoint took a
POST with exactly this payload, or an administrator cleared it.  This holds as long as no
endpoint answers below 300 to the GET by which the HTTP client follows a 301, 302 or 303
(`nothing_lost`).  Such an answer is taken for a delivery, and the payload is gone
although nobody has it (`lost_after_redirect`).

The invariant ties the rows to the log: every row was accepted, an id was accepted once,
and what was accepted is there, delivered or cleared.

* `BodyKept`: the condition on redirects.
* `nothing_lost`, `lost_after_redirect`: the theorem, and a run without the condition.
-/

namespace ArcRelay.Archive

open Interleave Json List Entry

/-! ### The invariant -/

/-- An endpoint has taken a POST of this payload for this row. -/
def Delivered (log : List Entry) (id : ℕ) (payload : Bytes) : Prop :=
  ∃ url status, .answered id url (some payload) status ∈ log ∧ status < 300

def Kept (s : State) (id : ℕ) (payload : Bytes) : Prop :=
  (id, payload) ∈ contents s.queue ∨ Delivered s.log id payload ∨ .cleared id ∈ s.log

/-- No GET by which a delivery was redirected was answered below 300. -/
def BodyKept (log : List Entry) : Prop :=
  ∀ id url status, .answered id url none status ∈ log → 300 ≤ status

structure Inv (s : State) : Prop where
  rows : ∀ p ∈ contents s.queue, .accepted p.1 p.2 ∈ s.log
  fresh : ∀ id payload, .accepted id payload ∈ s.log → id < s.nextID
  once : ∀ id payload payload', .accepted id payload ∈ s.log → .accepted id payload' ∈ s.log →
    payload = payload'
  kept : BodyKept s.log → ∀ id payload, .accepted id payload ∈ s.log → Kept s id payload

theorem inv_start : Inv {} where
  rows _ hp := absurd hp not_mem_nil
  fresh _ _ h := absurd h not_mem_nil
  once _ _ _ h := absurd h not_mem_nil
  kept _ _ _ h := absurd h not_mem_nil

variable {log log' : List Entry} {payload : Bytes} {s s' : State} {id : ℕ} {p : Point} {item : Item}

theorem BodyKept.mono (h : BodyKept log') (hl : log ⊆ log') : BodyKept log :=
  fun id url status hmem => h id url status (hl hmem)

theorem Delivered.mono (h : Delivered log id payload) (hl : log ⊆ log') :
    Delivered log' id payload := by
  obtain ⟨url, status, hmem, hlt⟩ := h
  exact ⟨url, status, hl hmem, hlt⟩

theorem Inv.accept (h : Inv s)
    (hqueue : contents s'.queue = contents s.queue ++ [(s.nextID, payload)])
    (hlog : s'.log = .accepted s.nextID payload :: s.log) (hnext : s'.nextID = s.nextID + 1) :
    Inv s' := by
  have hsub : s.log ⊆ s'.log := by
    rw [hlog]
    exact subset_cons_self _ _
  have hnew : ∀ id p, accepted id p ∈ s'.log →
      (id = s.nextID ∧ p = payload) ∨ accepted id p ∈ s.log := by
    intro id p hmem
    rw [hlog] at hmem
    rcases mem_cons.mp hmem with heq | hmem
    · cases heq
      exact .inl ⟨rfl, rfl⟩
    · exact .inr hmem
  refine ⟨?_, ?_, ?_, ?_⟩
  · intro p hp
    rw [hqueue, mem_append, mem_singleton] at hp
    rcases hp with hp | rfl
    · exact hsub (h.rows p hp)
    rw [hlog]
    exact mem_cons_self ..
  · intro id p hmem
    rw [hnext]
    rcases hnew id p hmem with ⟨rfl, -⟩ | hold
    · exact Nat.lt_succ_self _
    · exact Nat.lt_succ_of_lt (h.fresh id p hold)
  · intro id p p' hp hp'
    -- the new id is above every id that was accepted before
    rcases hnew id p hp with ⟨rfl, rfl⟩ | hold
    · rcases hnew _ p' hp' with ⟨-, rfl⟩ | hold'
      · rfl
      · exact absurd (h.fresh _ _ hold') (Nat.lt_irrefl _)
    rcases hnew id p' hp' with ⟨rfl, rfl⟩ | hold'
    · exact absurd (h.fresh _ _ hold) (Nat.lt_irrefl _)
    · exact h.once id p p' hold hold'
  · intro hbody id p hp
    rcases hnew id p hp with ⟨rfl, rfl⟩ | hold
    · refine .inl ?_
      rw [hqueue]
      exact mem_append_right _ (mem_singleton_self _)
    rcases h.kept (hbody.mono hsub) id p hold with hrow | hdel | hclear
    · refine .inl ?_
      rw [hqueue]
      exact mem_append_left _ hrow
    · exact .inr (.inl (hdel.mono hsub))
    · exact .inr (.inr (hsub hclear))

theorem Inv.note (h : Inv s) (front : List Entry) (hlog : s'.log = front ++ s.log)
    (hnew : ∀ id payload, accepted id payload ∉ front)
    (hrows : contents s'.queue ⊆ contents s.queue) (hnext : s'.nextID = s.nextID)
    (hgone : BodyKept s'.log → ∀ p ∈ contents s.queue, Kept s' p.1 p.2) : Inv s' := by
  have hsub : s.log ⊆ s'.log := hlog ▸ subset_append_right front s.log
  have hold : ∀ id payload, accepted id payload ∈ s'.log → accepted id payload ∈ s.log := by
    intro id payload hmem
    rw [hlog, mem_append] at hmem
    exact hmem.resolve_left (hnew id payload)
  refine ⟨?_, ?_, ?_, ?_⟩
  · intro p hp
    exact hsub (h.rows p (hrows hp))
  · intro id payload hmem
    rw [hnext]
    exact h.fresh id payload (hold id payload hmem)
  · intro id payload payload' hp hp'
    exact h.once id payload payload' (hold id payload hp) (hold id payload' hp')
  · intro hbody id payload hmem
    rcases h.kept (hbody.mono hsub) id payload (hold id payload hmem) with hrow | hdel | hclear
    · exact hgone hbody (id, payload) hrow
    · exact .inr (.inl (hdel.mono hsub))
    · exact .inr (.inr (hsub hclear))

theorem Inv.update (h : Inv s) (front : List Entry) (hlog : s'.log = front ++ s.log)
    (hnew : ∀ id payload, accepted id payload ∉ front)
    (hqueue : contents s'.queue = contents s.queue) (hnext : s'.nextID = s.nextID) : Inv s' := by
  refine h.note front hlog hnew (fun p hp => hqueue ▸ hp) hnext fun _ p hp => .inl ?_
  rw [hqueue]
  exact hp

theorem Inv.administers (h : Inv s) (hs : Administers s s') : Inv s' ∧ s.log <:+ s'.log := by
  cases hs with
  | nothing => exact ⟨h, suffix_refl _⟩
  | accept r hid =>
    refine ⟨h.accept ?_ rfl rfl, suffix_cons _ _⟩
    unfold contents
    rw [map_append, ← hid]
    rfl
  | retry now => exact ⟨h.update [] rfl (by simp) (contents_retryHeld ..) rfl, suffix_refl _⟩
  | retarget url authType authValue apiKeyHeader now =>
    exact ⟨h.update [.rewritten ..] rfl (by simp) (contents_rewriteHeldDelivery ..) rfl,
      suffix_cons _ _⟩
  | clear =>
    refine ⟨h.note _ rfl (by simp) (contents_clearHeld_subset _) rfl ?_, suffix_append _ _⟩
    rintro - p hp
    rcases mem_contents_clearHeld _ hp with hstill | ⟨r, hr, hheld, rfl⟩
    · exact .inl hstill
    refine .inr (.inr (mem_append_left _ (mem_map.mpr ⟨r, ?_, rfl⟩)))
    rw [mem_filter]
    exact ⟨hr, by simpa using hheld⟩
  | reset => exact ⟨h.update [.breaker ..] rfl (by simp) rfl rfl, suffix_cons _ _⟩

/-! ### The loop -/

def Accepted (items : List Item) (log : List Entry) : Prop :=
  ∀ r ∈ items, .accepted r.id r.payload ∈ log

/-- A last answer for a row is an answer to the POST of its payload or to a GET. -/
def Answered (id : ℕ) (payload : Bytes) (r : Except String ℕ) (log : List Entry) : Prop :=
  ∀ status, r = .ok status → ∃ url body, (body = none ∨ body = some payload) ∧
    .answered id url body status ∈ log

/-- What holds at each point: the rows in hand were accepted, and what the HTTP client
returns was answered to a request for the row. -/
def Holds : Point → List Entry → Prop
  | .idle, _ | .ready, _ => True
  | .holding items, log => Accepted items log
  | .flying item items body, log =>
    Accepted (item :: items) log ∧ (body = none ∨ body = some item.payload)
  | .returned item items r, log =>
    Accepted (item :: items) log ∧ Answered item.id item.payload r log
  | .settled _ items _, log => Accepted items log

theorem Accepted.mono {items items' : List Item} (h : Accepted items log)
    (hitems : items' ⊆ items) (hl : log ⊆ log') : Accepted items' log' :=
  fun r hr => hl (h r (hitems hr))

theorem Answered.mono {r : Except String ℕ} (h : Answered id payload r log) (hl : log ⊆ log') :
    Answered id payload r log' := by
  intro status hr
  obtain ⟨url, body, hbody, hmem⟩ := h status hr
  exact ⟨url, body, hbody, hl hmem⟩

theorem Holds.mono (h : Holds p log) (hl : log ⊆ log') : Holds p log' := by
  cases p with
  | idle | ready => trivial
  | holding _ | settled _ _ _ => exact Accepted.mono h (.refl _) hl
  | flying item items body => exact ⟨h.1.mono (.refl _) hl, h.2⟩
  | returned item items r => exact ⟨h.1.mono (.refl _) hl, h.2.mono hl⟩

theorem Inv.deliver (h : Inv s) (hitem : .accepted item.id item.payload ∈ s.log) {url : String}
    {body : Option Bytes} {status : ℕ} (hbody : body = none ∨ body = some item.payload)
    (hmem : .answered item.id url body status ∈ s.log) (hstatus : status < 300)
    (hqueue : s'.queue = markDelivered item.id s.queue) (hlog : s'.log = s.log)
    (hnext : s'.nextID = s.nextID) : Inv s' := by
  refine h.note [] hlog (by simp) ?_ hnext fun hkept p hp => ?_
  · intro p hp
    rw [hqueue] at hp
    exact ((mem_contents_markDelivered _ _).mp hp).1
  by_cases hid : p.1 = item.id
  · -- the row that goes is the row that was sent
    have hpayload : p.2 = item.payload := by
      have hp' := h.rows p hp
      rw [hid] at hp'
      exact h.once _ _ _ hp' hitem
    rw [hlog] at hkept
    rcases hbody with rfl | rfl
    · -- the answer was to a GET, which the condition excludes
      have := hkept _ _ _ hmem
      omega
    refine .inr (.inl ⟨url, status, ?_, hstatus⟩)
    rw [hid, hpayload, hlog]
    exact hmem
  · refine .inl ?_
    rw [hqueue]
    exact (mem_contents_markDelivered _ _).mpr ⟨hp, hid⟩

def outline : Outline where
  Inv := Inv
  Rely s s' := s.log <:+ s'.log
  At p s := Holds p s.log

theorem outline_marks {p' : Point} (h : ∀ log, Holds p log → Holds p' log) :
    outline.Marks p p' item := by
  intro g hg
  refine ⟨fun s hp hI => ⟨hI.update [] rfl (by simp) rfl rfl, h _ hp⟩, fun now s hp hI => ?_⟩
  refine ⟨hI.update [.written ..] rfl (by simp) ?_ rfl, (h _ hp).mono (subset_cons_self _ _)⟩
  apply contents_map
  intro r
  split
  · rw [(hg now r).1, (hg now r).2.1]
  · rfl

/-- **Every step keeps the invariant.** -/
theorem outline_valid (out : Outside) : outline.Valid out where
  start := ⟨inv_start, trivial⟩
  refl s := suffix_refl s.log
  trans _ _ _ hab hbc := List.IsSuffix.trans hab hbc
  administers s s' hs hI := Inv.administers hI hs
  stable p s s' hp hR _ := hp.mono (List.IsSuffix.subset hR)
  check now s _ hI := by
    refine ⟨hI.update [.breaker ..] rfl (by simp) rfl rfl, ?_⟩
    split <;> trivial
  unread s _ := trivial
  dequeue now limit s _ hI := by
    refine ⟨hI.update [.dequeued] rfl (by simp) rfl rfl, fun r hr => ?_⟩
    exact mem_cons_of_mem _ (hI.rows _ (mem_map_of_mem (mem_of_mem_due _ _ hr)))
  unreadable l r rows :=
    outline_marks fun log hp => Accepted.mono hp (by simp) (.refl _)
  decrypted l r rows authValue s hp := by
    intro r' hr'
    rcases mem_append.mp hr' with hl | hr'
    · exact hp r' (mem_append_left _ hl)
    rcases mem_cons.mp hr' with rfl | hrows
    · exact hp r (by simp)
    · exact hp r' (by simp [hrows])
  ended s _ := trivial
  stopped items s _ hI := ⟨hI.update [] rfl (by simp) rfl rfl, trivial⟩
  invalid item items _ :=
    outline_marks fun log hp => Accepted.mono hp (subset_cons_self _ _) (.refl _)
  posted item items _ s hp hI := by
    refine ⟨hI.update [.posted ..] rfl (by simp) rfl rfl, ?_, .inr rfl⟩
    exact Accepted.mono hp (.refl _) (subset_cons_self _ _)
  failed item items body err s hp := ⟨hp.1, nofun⟩
  answered item items body url status s hp hI := by
    have hitems := hp.1.mono (.refl _) (subset_cons_self (.answered item.id url body status) s.log)
    refine ⟨hI.update [.answered ..] rfl (by simp) rfl rfl, ⟨hitems, fun status' h => ?_⟩, ?_⟩
    · cases h
      exact ⟨url, body, hp.2, mem_cons_self ..⟩
    -- 307 and 308 send the body again, the others drop it
    rintro includeBody -
    refine ⟨hitems, ?_⟩
    split
    · exact hp.2
    · exact .inl rfl
  delivered item items status hlt := by
    have hrest : ∀ log, Accepted (item :: items) log → Accepted items log :=
      fun log h => h.mono (subset_cons_self _ _) (.refl _)
    refine ⟨fun s hp hI => ⟨hI.update [] rfl (by simp) rfl rfl, hrest _ hp.1⟩, ?_⟩
    intro now s hp hI
    obtain ⟨url, body, hbody, hmem⟩ := hp.2 status rfl
    exact ⟨hI.deliver (hp.1 item (mem_cons_self ..)) hbody hmem hlt rfl rfl rfl, hrest _ hp.1⟩
  undelivered item items r _ :=
    outline_marks fun log hp => hp.1.mono (subset_cons_self _ _) (.refl _)
  settle item items ok now s hp hI := by
    have hitems : Accepted items (.breaker (.settle item.id ok now) s.circuit
        (s.circuit.settle now ok).1 :: s.log) :=
      Accepted.mono hp (.refl _) (subset_cons_self _ _)
    unfold State.settle
    split
    · exact ⟨hI.update [.breaker ..] rfl (by simp) rfl rfl, hitems⟩
    · exact ⟨hI.update [.breaker ..] rfl (by simp) rfl rfl, trivial⟩

/-! ### Every run -/

/-- **Nothing is lost**: in every run in which no GET that follows a redirect of a
delivery is answered below 300, a payload that was accepted is still in the queue, or an
endpoint has answered below 300 to a POST of exactly this payload, or it was cleared. -/
theorem nothing_lost (out : Outside) (n : ℕ) (sched : List (Event WorldEvent Env))
    (hbody : BodyKept ((start out n).exec (world out) sched).state.log) (id : ℕ) (payload : Bytes)
    (haccepted : .accepted id payload ∈ ((start out n).exec (world out) sched).state.log) :
    Kept ((start out n).exec (world out) sched).state id payload := by
  have hinv : Inv ((start out n).exec (world out) sched).state := (outline_valid out).exec n sched
  exact hinv.kept hbody id payload haccepted

/-! ### Two runs -/

/-- One payload is enqueued and one batch is drained; the endpoint and those it redirects
to give the answers in turn. -/
def oneDelivery (answers : List Answer) : List (Event WorldEvent Env) :=
  .env (.enqueue [0x7b, 0x7d] ⟨"https://a", "none", "", ""⟩ "s1" 0 0) ::
    -- the breaker, the batch, the signal to stop and the start of the request
    List.replicate 4 (.run 0 { now := 0 }) ++
    answers.map (fun a => .run 0 { now := 0, net := .ok a }) ++ [.run 0 { now := 0 }]

def acceptedRun : List (Event WorldEvent Env) := oneDelivery [⟨200, none⟩]

def redirectedRun : List (Event WorldEvent Env) :=
  oneDelivery [⟨302, some (.ok "https://b")⟩, ⟨200, none⟩]

theorem nothing_lost_accepted :
    BodyKept ((start plainOutside 1).exec (world plainOutside) acceptedRun).state.log ∧
      .accepted 0 [0x7b, 0x7d] ∈
        ((start plainOutside 1).exec (world plainOutside) acceptedRun).state.log ∧
      Kept ((start plainOutside 1).exec (world plainOutside) acceptedRun).state 0 [0x7b, 0x7d] := by
  have hlog : ((start plainOutside 1).exec (world plainOutside) acceptedRun).state.log =
      [.answered 0 "https://a" (some [0x7b, 0x7d]) 200, .posted 0 "https://a", .dequeued,
        .breaker (.check 0) {} {}, .accepted 0 [0x7b, 0x7d]] := by
    decide +kernel
  have hbody :
      BodyKept ((start plainOutside 1).exec (world plainOutside) acceptedRun).state.log := by
    rw [hlog]
    intro id url status hmem
    simp at hmem
  have hacc : .accepted 0 [0x7b, 0x7d] ∈
      ((start plainOutside 1).exec (world plainOutside) acceptedRun).state.log := by
    rw [hlog]
    simp
  exact ⟨hbody, hacc, nothing_lost plainOutside 1 acceptedRun hbody 0 [0x7b, 0x7d] hacc⟩

/-- **A payload is lost**: it was accepted, it is not in the queue, no endpoint has taken
it and nobody has cleared it. -/
theorem lost_after_redirect :
    .accepted 0 [0x7b, 0x7d] ∈
        ((start plainOutside 1).exec (world plainOutside) redirectedRun).state.log ∧
      ¬ Kept ((start plainOutside 1).exec (world plainOutside) redirectedRun).state 0
        [0x7b, 0x7d] := by
  have hlog : ((start plainOutside 1).exec (world plainOutside) redirectedRun).state.log =
      [.answered 0 "https://b" none 200, .answered 0 "https://a" (some [0x7b, 0x7d]) 302,
        .posted 0 "https://a", .dequeued, .breaker (.check 0) {} {},
        .accepted 0 [0x7b, 0x7d]] := by
    decide +kernel
  have hqueue :
      ((start plainOutside 1).exec (world plainOutside) redirectedRun).state.queue = [] := by
    decide +kernel
  constructor
  · rw [hlog]
    simp
  rintro (hrow | ⟨url, status, hmem, hstatus⟩ | hclear)
  · rw [hqueue] at hrow
    cases hrow
  · rw [hlog] at hmem
    simp at hmem
    omega
  · rw [hlog] at hclear
    simp at hclear

end ArcRelay.Archive
