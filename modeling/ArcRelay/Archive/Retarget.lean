import ArcRelay.Archive.Outline
import ArcRelay.Lib.History

/-!
# Pointing the archive queue at a new URL

An administrator who changes the archive's URL rewrites the rows that wait in the queue.
From then on their payloads should go to the new URL only, and what became of a delivery
to the old URL should not be written to a row that points at the new one.

The loop works on copies.  Rows that it has in hand when the queue is rewritten are still
posted to the old URL, and the outcome is written to the rewritten row
(`posted_to_old_url`).  When no such row is in hand, everything goes to the new URL
(`retarget_takes_effect`).

The invariant says that rows and copies point where the last rewrite of their row has
pointed them, and that a copy and its row agree.

* `target`: where a row points.
* `HandAgrees`, `Unmoved`: the conditions.
* `retarget_takes_effect`, `posted_to_old_url`: the theorem, and a run without them.
-/

namespace ArcRelay.Archive

open Interleave Json History List Entry

/-! ### Rewrites in the log -/

/-- Where the last rewrite that found a row in the queue has pointed it. -/
def target (id : ℕ) : List Entry → Option String
  | [] => none
  | .rewritten url rows _ :: log => if id ∈ rows.map (·.1) then some url else target id log
  | _ :: log => target id log

/-- At each rewrite the rows in hand pointed at the new URL already. -/
def HandAgrees (log : List Entry) : Prop :=
  ∀ url rows hand, .rewritten url rows hand ∈ log → ∀ p ∈ hand, p.2 = url

def sinceRead : List Entry → List Entry
  | [] => []
  | .dequeued :: _ => []
  | e :: log => e :: sinceRead log

/-- No rewrite has changed the row since the last batch was read. -/
def Unmoved (id : ℕ) (log : List Entry) : Prop :=
  ∀ url rows hand, .rewritten url rows hand ∈ sinceRead log → ∀ u, (id, u) ∈ rows → u = url

def Entry.still : Entry → Bool
  | .rewritten _ _ _ | .dequeued => false
  | _ => true

def AimAllowed : Entry → List Entry → Prop
  | .posted id url, log => HandAgrees log → ∀ u ∈ target id log, url = u
  | .written id url, log => HandAgrees log → (∀ u ∈ target id log, url = u) ∧ Unmoved id log
  | _, _ => True

variable {front log notes : List Entry} {s s' : State} {id : ℕ} {rows : List (ℕ × String)}
  {q : Queue} {p' : Point} {item : Item} {l items : List Item}

theorem HandAgrees.tail (h : HandAgrees (front ++ log)) : HandAgrees log :=
  fun url rows hand hmem => h url rows hand (mem_append_right _ hmem)

theorem target_append (h : ∀ e ∈ front, e.still = true) (id : ℕ) (log : List Entry) :
    target id (front ++ log) = target id log := by
  induction front with
  | nil => rfl
  | cons e front ih => ?_
  have hfront := ih fun e' he' => h e' (mem_cons_of_mem e he')
  have he := h e mem_cons_self
  cases e with
  | rewritten url rows hand => cases he
  | _ => exact hfront

theorem Unmoved.append (h : Unmoved id log) (hfront : ∀ e ∈ front, e.still = true) :
    Unmoved id (front ++ log) := by
  induction front with
  | nil => exact h
  | cons e front ih => ?_
  have hrest := ih fun e' he' => hfront e' (mem_cons_of_mem e he')
  have he := hfront e mem_cons_self
  intro url rows hand hmem
  cases e with
  | rewritten _ _ _ | dequeued => cases he
  | _ =>
    rcases mem_cons.mp hmem with heq | hmem
    · cases heq
    · exact hrest url rows hand hmem

/-! ### Where rows point -/

theorem mem_destinations {rows : List Item} {r : Item} (h : r ∈ rows) :
    (r.id, r.url) ∈ destinations rows := mem_map.mpr ⟨r, h, rfl⟩

theorem destinations_release (s : State) (id : ℕ) :
    destinations (s.release id).hand = (destinations s.hand).filter fun p => p.1 ≠ id := by
  unfold destinations State.release
  rw [filter_map]
  rfl

theorem destinations_modify (q : Queue) (id : ℕ) {g : Item → Item} (hg : Outline.Keeps g) :
    destinations (Table.modify Item.id id g q) = destinations q := by
  refine Table.map_modify_eq fun r _ => ?_
  rw [(hg r).1, (hg r).2.2]

theorem destinations_retryHeld (now : ℤ) (q : Queue) :
    destinations (retryHeld now q) = destinations q := by
  unfold destinations retryHeld
  rw [map_map]
  refine map_congr_left fun r _ => ?_
  dsimp only [Function.comp]
  split <;> rfl

theorem destinations_rewrite (url authType authValue apiKeyHeader : String) (now : ℤ) (q : Queue) :
    destinations (rewriteHeldDelivery url authType authValue apiKeyHeader now q) =
      q.map fun r => (r.id, url) := by
  unfold destinations rewriteHeldDelivery
  rw [map_map]
  refine map_congr_left fun r _ => ?_
  dsimp only [Function.comp]
  split
  · rfl
  · next hsame => rw [not_not.mp hsame]

theorem destinations_filter (q : Queue) (keep : Item → Bool) :
    (destinations (q.filter keep)).Sublist (destinations q) :=
  filter_sublist.map _

/-! ### The invariant -/

/-- Rows and copies point where the last rewrite has pointed them, and agree. -/
structure Aimed (s : State) : Prop where
  allowed : Always AimAllowed s.log
  known : ∀ url rows hand, .rewritten url rows hand ∈ s.log → ∀ p ∈ rows, p.1 < s.nextID
  unique : ((destinations s.queue).map (·.1)).Nodup
  queueIDs : ∀ p ∈ destinations s.queue, p.1 < s.nextID
  handIDs : ∀ p ∈ destinations s.hand, p.1 < s.nextID
  queue : HandAgrees s.log → ∀ p ∈ destinations s.queue, ∀ u ∈ target p.1 s.log, p.2 = u
  hand : HandAgrees s.log → ∀ p ∈ destinations s.hand, ∀ u ∈ target p.1 s.log, p.2 = u
  agree : HandAgrees s.log → ∀ p ∈ destinations s.hand, ∀ p' ∈ destinations s.queue,
    p'.1 = p.1 → p'.2 = p.2

theorem Aimed.step (h : Aimed s) (front : List Entry) (hlog : s'.log = front ++ s.log)
    (hstill : ∀ e ∈ front, e.still = true) (hallowed : Always AimAllowed s'.log)
    (hqueue : (destinations s'.queue).Sublist (destinations s.queue))
    (hhand : destinations s'.hand ⊆ destinations s.hand) (hnext : s'.nextID = s.nextID) :
    Aimed s' := by
  have hagrees : HandAgrees s'.log → HandAgrees s.log := by
    rw [hlog]
    exact HandAgrees.tail
  have htarget : ∀ id, target id s'.log = target id s.log := by
    intro id
    rw [hlog]
    exact target_append hstill id s.log
  refine ⟨hallowed, ?_, h.unique.sublist (hqueue.map _), ?_, ?_, ?_, ?_, ?_⟩
  · intro url rows hand hmem p hp
    rw [hlog, mem_append] at hmem
    rw [hnext]
    rcases hmem with hmem | hmem
    · cases hstill _ hmem
    · exact h.known url rows hand hmem p hp
  · intro p hp
    rw [hnext]
    exact h.queueIDs p (hqueue.subset hp)
  · intro p hp
    rw [hnext]
    exact h.handIDs p (hhand hp)
  · intro hs' p hp u hu
    rw [htarget] at hu
    exact h.queue (hagrees hs') p (hqueue.subset hp) u hu
  · intro hs' p hp u hu
    rw [htarget] at hu
    exact h.hand (hagrees hs') p (hhand hp) u hu
  · intro hs' p hp p' hp'
    exact h.agree (hagrees hs') p (hhand hp) p' (hqueue.subset hp')

theorem Aimed.target_new (h : Aimed s) (hid : s.nextID ≤ id) : target id s.log = none := by
  have hknown := h.known
  generalize s.log = log at hknown
  induction log with
  | nil => rfl
  | cons e log ih => ?_
  have hrest := ih fun url rows hand hmem => hknown url rows hand (mem_cons_of_mem e hmem)
  cases e with
  | rewritten url rows hand =>
    have hout : id ∉ rows.map (·.1) := by
      intro hin
      obtain ⟨p, hp, rfl⟩ := mem_map.mp hin
      have := hknown url rows hand mem_cons_self p hp
      omega
    rw [target, if_neg hout]
    exact hrest
  | _ => exact hrest

theorem Aimed.accept (h : Aimed s) (r : Item) (hid : r.id = s.nextID) :
    Aimed { s with
      queue := s.queue ++ [r], nextID := s.nextID + 1
      log := .accepted s.nextID r.payload :: s.log } := by
  have hdest : destinations (s.queue ++ [r]) = destinations s.queue ++ [(r.id, r.url)] :=
    map_append
  have hagrees : HandAgrees (.accepted s.nextID r.payload :: s.log) → HandAgrees s.log :=
    fun h url rows hand hmem => h url rows hand (mem_cons_of_mem _ hmem)
  refine ⟨⟨trivial, h.allowed⟩, ?_, ?_, ?_, ?_, ?_, ?_, ?_⟩
  · intro url rows hand hmem p hp
    rcases mem_cons.mp hmem with heq | hmem
    · cases heq
    · exact Nat.lt_succ_of_lt (h.known url rows hand hmem p hp)
  · rw [hdest, map_append, nodup_append]
    refine ⟨h.unique, nodup_singleton _, ?_⟩
    intro id hin id' hin' heq
    obtain ⟨p, hp, rfl⟩ := mem_map.mp hin
    have hlt := h.queueIDs p hp
    rw [map_singleton, mem_singleton] at hin'
    omega
  · intro p hp
    rw [hdest, mem_append, mem_singleton] at hp
    rcases hp with hp | rfl
    · exact Nat.lt_succ_of_lt (h.queueIDs p hp)
    rw [hid]
    exact Nat.lt_succ_self _
  · exact fun p hp => Nat.lt_succ_of_lt (h.handIDs p hp)
  · intro hs' p hp u hu
    rw [hdest, mem_append, mem_singleton] at hp
    rcases hp with hp | rfl
    · exact h.queue (hagrees hs') p hp u hu
    have hnone : target r.id s.log = none := h.target_new (Nat.le_of_eq hid.symm)
    rw [show target r.id (.accepted s.nextID r.payload :: s.log) = target r.id s.log from rfl,
      hnone] at hu
    cases hu
  · exact fun hs' p hp u hu => h.hand (hagrees hs') p hp u hu
  · intro hs' p hp p' hp' heq
    rw [hdest, mem_append, mem_singleton] at hp'
    rcases hp' with hp' | rfl
    · exact h.agree (hagrees hs') p hp p' hp' heq
    have := h.handIDs p hp
    omega

theorem Aimed.retarget (h : Aimed s) (url authType authValue apiKeyHeader : String) (now : ℤ) :
    Aimed { s with
      queue := rewriteHeldDelivery url authType authValue apiKeyHeader now s.queue
      log := .rewritten url (destinations s.queue) (destinations s.hand) :: s.log } := by
  have hdest := destinations_rewrite url authType authValue apiKeyHeader now s.queue
  have hids : (destinations (rewriteHeldDelivery url authType authValue apiKeyHeader now
      s.queue)).map (·.1) = (destinations s.queue).map (·.1) := by
    rw [hdest]
    unfold destinations
    rw [map_map, map_map]
    rfl
  have hold : ∀ p ∈ destinations (rewriteHeldDelivery url authType authValue apiKeyHeader now
      s.queue), p.2 = url ∧ p.1 ∈ (destinations s.queue).map (·.1) := by
    intro p hp
    refine ⟨?_, hids ▸ mem_map_of_mem hp⟩
    rw [hdest] at hp
    obtain ⟨r, -, rfl⟩ := mem_map.mp hp
    rfl
  have hpointed : ∀ (id : ℕ) (u : String), u ∈ target id
      (.rewritten url (destinations s.queue) (destinations s.hand) :: s.log) →
      u = url ∨ u ∈ target id s.log := by
    intro id u hu
    rw [target] at hu
    split at hu
    · exact .inl (Option.some.inj hu).symm
    · exact .inr hu
  have hhand : HandAgrees (.rewritten url (destinations s.queue) (destinations s.hand) :: s.log) →
      HandAgrees s.log ∧ ∀ p ∈ destinations s.hand, p.2 = url :=
    fun h => ⟨fun url' rows hand hmem => h url' rows hand (mem_cons_of_mem _ hmem),
      h _ _ _ mem_cons_self⟩
  refine ⟨⟨trivial, h.allowed⟩, ?_, ?_, ?_, h.handIDs, ?_, ?_, ?_⟩
  · intro url' rows hand hmem p hp
    rcases mem_cons.mp hmem with heq | hmem
    · obtain ⟨-, rfl, -⟩ := rewritten.inj heq
      exact h.queueIDs p hp
    · exact h.known url' rows hand hmem p hp
  · rw [hids]
    exact h.unique
  · intro p hp
    obtain ⟨p', hp', heq⟩ := mem_map.mp (hold p hp).2
    rw [← heq]
    exact h.queueIDs p' hp'
  · intro _ p hp u hu
    obtain ⟨hurl, hin⟩ := hold p hp
    rw [target, if_pos hin] at hu
    rw [hurl]
    exact Option.some.inj hu
  · intro hs' p hp u hu
    obtain ⟨hlog, hall⟩ := hhand hs'
    rcases hpointed p.1 u hu with rfl | hu
    · exact hall p hp
    · exact h.hand hlog p hp u hu
  · intro hs' p hp p' hp' _
    rw [(hold p' hp').1, (hhand hs').2 p hp]

/-! ### The loop -/

/-- Different rows that are in hand, none of which was moved since the batch was read. -/
structure Held (rows : List (ℕ × String)) (s : State) : Prop where
  distinct : (rows.map (·.1)).Nodup
  hand : rows ⊆ destinations s.hand
  unmoved : HandAgrees s.log → ∀ p ∈ rows, Unmoved p.1 s.log

/-- What the others do: the copies stay, and by the condition their rows are not moved. -/
structure Beside (s s' : State) : Prop where
  hand : s'.hand = s.hand
  unmoved : HandAgrees s'.log → HandAgrees s.log ∧
    ∀ p ∈ destinations s.hand, Unmoved p.1 s.log → Unmoved p.1 s'.log

theorem Beside.refl (s : State) : Beside s s := ⟨rfl, fun h => ⟨h, fun _ _ hp => hp⟩⟩

theorem Beside.trans {a b c : State} (hab : Beside a b) (hbc : Beside b c) : Beside a c := by
  refine ⟨hbc.hand.trans hab.hand, fun hc => ?_⟩
  obtain ⟨hb, hmove⟩ := hbc.unmoved hc
  obtain ⟨ha, hmove'⟩ := hab.unmoved hb
  refine ⟨ha, fun p hp hold => hmove p ?_ (hmove' p hp hold)⟩
  rw [hab.hand]
  exact hp

theorem beside_of_still (front : List Entry) (hlog : s'.log = front ++ s.log)
    (hstill : ∀ e ∈ front, e.still = true) (hhand : s'.hand = s.hand) : Beside s s' := by
  refine ⟨hhand, fun hs' => ?_⟩
  rw [hlog] at hs' ⊢
  exact ⟨hs'.tail, fun p _ hold => hold.append hstill⟩

theorem Held.beside (h : Held rows s) (hR : Beside s s') : Held rows s' := by
  refine ⟨h.distinct, ?_, fun hs' p hp => ?_⟩
  · rw [hR.hand]
    exact h.hand
  · obtain ⟨hs, hmove⟩ := hR.unmoved hs'
    exact hmove p (h.hand hp) (h.unmoved hs p hp)

theorem Aimed.administers (h : Aimed s) (hs : Administers s s') : Aimed s' ∧ Beside s s' := by
  cases hs with
  | nothing => exact ⟨h, .refl s⟩
  | accept r hid => exact ⟨h.accept r hid, beside_of_still [.accepted ..] rfl (by simp [still]) rfl⟩
  | retry now =>
    refine ⟨h.step [] rfl (by simp) h.allowed ?_ (.refl _) rfl,
      beside_of_still [] rfl (by simp) rfl⟩
    rw [destinations_retryHeld]
  | retarget url authType authValue apiKeyHeader now =>
    refine ⟨h.retarget url authType authValue apiKeyHeader now, rfl, fun hs' => ?_⟩
    have hs : HandAgrees s.log :=
      fun url' rows hand hmem => hs' url' rows hand (mem_cons_of_mem _ hmem)
    refine ⟨hs, fun p hp hold url' rows hand hmem u hu => ?_⟩
    rcases mem_cons.mp hmem with heq | hmem
    · -- the copy agrees with the row, and points at the new URL already
      obtain ⟨rfl, rfl, -⟩ := rewritten.inj heq
      have hrow : u = p.2 := h.agree hs p hp (p.1, u) hu rfl
      rw [hrow]
      exact hs' _ _ _ mem_cons_self p hp
    · exact hold url' rows hand hmem u hu
  | clear =>
    have hstill : ∀ e ∈ (s.queue.filter fun r => r.status = .hold).map fun r => cleared r.id,
        e.still = true := by
      intro e he
      obtain ⟨r, -, rfl⟩ := mem_map.mp he
      rfl
    refine ⟨h.step _ rfl hstill ?_ (destinations_filter _ _) (.refl _) rfl,
      beside_of_still _ rfl hstill rfl⟩
    refine h.allowed.append fun e he log => ?_
    obtain ⟨r, -, rfl⟩ := mem_map.mp he
    trivial
  | reset =>
    exact ⟨h.step [.breaker ..] rfl (by simp [still]) ⟨trivial, h.allowed⟩
      (List.Sublist.refl _) (.refl _) rfl,
      beside_of_still [.breaker ..] rfl (by simp [still]) rfl⟩

theorem Held.write {rows' : List (ℕ × String)} {p : ℕ × String} (h : Held rows s) (hI : Aimed s)
    (hmem : p ∈ rows) (hsub : rows'.Sublist rows) (hout : p.1 ∉ rows'.map (·.1))
    (hnotes : notes = [] ∨ notes = [.written p.1 p.2])
    (hq : (destinations q).Sublist (destinations s.queue)) :
    Aimed { s.release p.1 with queue := q, log := notes ++ s.log } ∧
      Held rows' { s.release p.1 with queue := q, log := notes ++ s.log } := by
  have hstill : ∀ e ∈ notes, e.still = true := by
    rcases hnotes with rfl | rfl
    · simp
    · simp [still]
  have hallowed : Always AimAllowed (notes ++ s.log) := by
    rcases hnotes with rfl | rfl
    · exact hI.allowed
    refine ⟨fun hs => ⟨?_, h.unmoved hs p hmem⟩, hI.allowed⟩
    exact hI.hand hs p (h.hand hmem)
  have hhand := destinations_release s p.1
  refine ⟨hI.step notes rfl hstill hallowed hq ?_ rfl, h.distinct.sublist (hsub.map _), ?_, ?_⟩
  · rw [hhand]
    exact filter_sublist.subset
  · intro p' hp'
    rw [hhand, mem_filter]
    refine ⟨h.hand (hsub.subset hp'), decide_eq_true fun heq => ?_⟩
    exact hout (heq ▸ mem_map_of_mem hp')
  · intro hs' p' hp'
    exact (h.unmoved hs'.tail p' (hsub.subset hp')).append hstill

def aimAt : Point → State → Prop
  | .idle, _ | .ready, _ => True
  | .holding items, s | .settled _ items _, s => Held (destinations items) s
  | .flying item items _, s | .returned item items _, s => Held (destinations (item :: items)) s

def aimOutline : Outline where
  Inv := Aimed
  Rely := Beside
  At := aimAt

theorem aimOutline_writes {p : Point} {f : ℤ → Queue → Queue}
    (hp : ∀ s, aimAt p s → Held (destinations (l ++ item :: items)) s)
    (hp' : ∀ s, Held (destinations (l ++ items)) s → aimAt p' s)
    (hnotes : notes = [] ∨ notes = [.written item.id item.url])
    (hf : ∀ now q, (destinations (f now q)).Sublist (destinations q)) :
    aimOutline.Writes p p' item.id notes f := by
  have hmem : (item.id, item.url) ∈ destinations (l ++ item :: items) := mem_destinations (by simp)
  have hsub : (destinations (l ++ items)).Sublist (destinations (l ++ item :: items)) :=
    ((sublist_cons_self item items).append_left l).map _
  have hwrite : ∀ (s : State) (notes : List Entry) (q : Queue), aimAt p s → Aimed s →
      (notes = [] ∨ notes = [.written item.id item.url]) →
      (destinations q).Sublist (destinations s.queue) →
      Aimed { s.release item.id with queue := q, log := notes ++ s.log } ∧
        aimAt p' { s.release item.id with queue := q, log := notes ++ s.log } := by
    intro s notes q hs hI hnotes hq
    have hheld := hp s hs
    have hout : item.id ∉ (destinations (l ++ items)).map (·.1) := by
      have hnodup := hheld.distinct
      unfold destinations at hnodup ⊢
      rw [map_map, map_append, map_cons] at hnodup
      rw [map_map, map_append]
      exact (nodup_cons.mp (nodup_middle.mp hnodup)).1
    obtain ⟨hI', hitems⟩ := hheld.write hI hmem hsub hout hnotes hq
    exact ⟨hI', hp' _ hitems⟩
  refine ⟨fun s hs hI => ?_, fun now s hs hI => ?_⟩
  · exact hwrite s [] s.queue hs hI (.inl rfl) (List.Sublist.refl _)
  · exact hwrite s notes _ hs hI hnotes (hf now s.queue)

theorem aimOutline_marks {p : Point}
    (hp : ∀ s, aimAt p s → Held (destinations (l ++ item :: items)) s)
    (hp' : ∀ s, Held (destinations (l ++ items)) s → aimAt p' s) : aimOutline.Marks p p' item := by
  intro g hg
  refine aimOutline_writes hp hp' (.inr rfl) fun now q => ?_
  rw [destinations_modify q item.id (hg now)]

theorem nodup_due (h : ((destinations q).map (·.1)).Nodup) (now : ℤ) (limit : ℕ) :
    ((destinations (due q now limit)).map (·.1)).Nodup := by
  unfold destinations at h ⊢
  rw [map_map] at h ⊢
  refine ((take_sublist _ _).map _).nodup ?_
  refine ((mergeSort_perm _ _).map _).nodup_iff.mpr ?_
  exact (filter_sublist.map _).nodup h

theorem Aimed.same (h : Aimed s) {p p' : ℕ × String} (hp : p ∈ destinations s.queue)
    (hp' : p' ∈ destinations s.queue) (heq : p'.1 = p.1) : p' = p :=
  inj_on_of_nodup_map h.unique hp' hp heq

theorem Aimed.dequeue (h : Aimed s) (now : ℤ) (limit : ℕ) :
    Aimed (s.dequeue now limit) ∧
      Held (destinations (due s.queue now limit)) (s.dequeue now limit) := by
  have hsub : destinations (due s.queue now limit) ⊆ destinations s.queue := by
    intro p hp
    obtain ⟨r, hr, rfl⟩ := mem_map.mp hp
    exact mem_destinations (mem_of_mem_due _ _ hr)
  have hagrees : HandAgrees (.dequeued :: s.log) → HandAgrees s.log :=
    fun h url rows hand hmem => h url rows hand (mem_cons_of_mem _ hmem)
  refine ⟨⟨⟨trivial, h.allowed⟩, ?_, h.unique, h.queueIDs, ?_, ?_, ?_, ?_⟩, ?_, ?_, ?_⟩
  · intro url rows hand hmem p hp
    rcases mem_cons.mp hmem with heq | hmem
    · cases heq
    · exact h.known url rows hand hmem p hp
  · exact fun p hp => h.queueIDs p (hsub hp)
  · exact fun hs => h.queue (hagrees hs)
  · exact fun hs p hp => h.queue (hagrees hs) p (hsub hp)
  · intro _ p hp p' hp' heq
    rw [h.same (hsub hp) hp' heq]
  · exact nodup_due h.unique now limit
  · exact .refl _
  · intro _ p _ url rows hand hmem
    cases hmem

/-- **Every step keeps rows and copies aimed.** -/
theorem aimOutline_valid (out : Outside) : aimOutline.Valid out where
  start := by
    refine ⟨⟨trivial, ?_, nodup_nil, ?_, ?_, ?_, ?_, ?_⟩, trivial⟩
    · exact nofun
    all_goals simp [destinations]
  refl := .refl
  trans _ _ _ hab hbc := hab.trans hbc
  administers s s' hs hI := Aimed.administers hI hs
  stable p s s' hp hR _ := by
    cases p with
    | idle => trivial
    | ready => trivial
    | holding _ | flying _ _ _ | returned _ _ _ | settled _ _ _ => exact Held.beside hp hR
  check now s _ hI := by
    refine ⟨Aimed.step hI [.breaker ..] rfl (by simp [still]) ⟨trivial, hI.allowed⟩
      (List.Sublist.refl _) (.refl _) rfl, ?_⟩
    split <;> trivial
  unread s _ := trivial
  dequeue now limit s _ hI := Aimed.dequeue hI now limit
  unreadable l r rows := aimOutline_marks (fun s hs => hs) (fun s hs => hs)
  decrypted l r rows authValue s hp := by
    have hsame : destinations (l ++ { r with authValue := authValue } :: rows) =
        destinations (l ++ r :: rows) := by simp [destinations]
    show Held (destinations (l ++ { r with authValue := authValue } :: rows)) s
    rw [hsame]
    exact hp
  ended s _ := trivial
  stopped items s _ hI := by
    refine ⟨Aimed.step hI [] rfl (by simp) hI.allowed (List.Sublist.refl _) ?_ rfl, trivial⟩
    simp [State.stopped, destinations]
  invalid item items _ := aimOutline_marks (l := []) (fun s hs => hs) (fun s hs => hs)
  posted item items _ s hp hI := by
    have hallowed : AimAllowed (.posted item.id item.url) s.log :=
      fun hs => hI.hand hs _ (hp.hand mem_cons_self)
    exact ⟨Aimed.step hI [.posted ..] rfl (by simp [still]) ⟨hallowed, hI.allowed⟩
      (List.Sublist.refl _) (.refl _) rfl,
      Held.beside hp (beside_of_still [.posted ..] rfl (by simp [still]) rfl)⟩
  failed item items body err s hp := hp
  answered item items body url status s hp hI := by
    have hheld : Held (destinations (item :: items)) (s.answered item.id url body status) :=
      Held.beside hp (beside_of_still [.answered ..] rfl (by simp [still]) rfl)
    exact ⟨Aimed.step hI [.answered ..] rfl (by simp [still]) ⟨trivial, hI.allowed⟩
      (List.Sublist.refl _) (.refl _) rfl, hheld, fun _ _ => hheld⟩
  delivered item items status _ :=
    aimOutline_writes (l := []) (fun s hs => hs) (fun s hs => hs) (.inl rfl) fun now q =>
      destinations_filter q _
  undelivered item items r _ := aimOutline_marks (l := []) (fun s hs => hs) (fun s hs => hs)
  settle item items ok now s hp hI := by
    unfold State.settle
    split
    · exact ⟨Aimed.step hI [.breaker ..] rfl (by simp [still]) ⟨trivial, hI.allowed⟩
        (List.Sublist.refl _) (.refl _) rfl,
        Held.beside hp (beside_of_still [.breaker ..] rfl (by simp [still]) rfl)⟩
    refine ⟨Aimed.step hI [.breaker ..] rfl (by simp [still]) ⟨trivial, hI.allowed⟩
      (List.Sublist.refl _) ?_ rfl, trivial⟩
    simp [State.stopped, destinations]

/-! ### Every run -/

/-- **Retargeting takes effect**: in every run in which the rows in hand at a rewrite point
at the new URL already, a POST for a row that a rewrite found in the queue goes to the URL
of the last such rewrite, and what became of an attempt is written only to a row that no
rewrite has changed since the batch was read. -/
theorem retarget_takes_effect (out : Outside) (n : ℕ) (sched : List (Event WorldEvent Env))
    (hagrees : HandAgrees ((start out n).exec (world out) sched).state.log)
    (id : ℕ) (url : String) (log : List Entry) :
    (.posted id url :: log <:+ ((start out n).exec (world out) sched).state.log →
        ∀ u ∈ target id log, url = u) ∧
      (.written id url :: log <:+ ((start out n).exec (world out) sched).state.log →
        (∀ u ∈ target id log, url = u) ∧ Unmoved id log) := by
  have haimed : Aimed ((start out n).exec (world out) sched).state :=
    (aimOutline_valid out).exec n sched
  have hlog : ∀ e, e :: log <:+ ((start out n).exec (world out) sched).state.log →
      AimAllowed e log ∧ HandAgrees log := by
    intro e hsuffix
    refine ⟨(haimed.allowed.suffix hsuffix).1, fun url rows hand hmem => ?_⟩
    exact hagrees url rows hand (hsuffix.subset (mem_cons_of_mem e hmem))
  refine ⟨fun hposted => ?_, fun hwritten => ?_⟩
  · obtain ⟨hallowed, hagrees'⟩ := hlog _ hposted
    exact hallowed hagrees'
  · obtain ⟨hallowed, hagrees'⟩ := hlog _ hwritten
    exact hallowed hagrees'

/-! ### Two runs -/

def enqueueOne : Event WorldEvent Env :=
  .env (.enqueue [0x7b, 0x7d] ⟨"https://a", "none", "", ""⟩ "s1" 0 0)

def rewriteOne : Event WorldEvent Env :=
  .env (.rewriteHeldDelivery ⟨"https://b", "none", "", ""⟩ 0 0)

def takeBatch : List (Event WorldEvent Env) := List.replicate 3 (.run 0 { now := 0 })

def postOne : List (Event WorldEvent Env) :=
  [.run 0 { now := 0 }, .run 0 { now := 0, net := .ok ⟨503, none⟩ }, .run 0 { now := 0 },
    .run 0 { now := 0 }]

def rewrittenIdle : List (Event WorldEvent Env) := [enqueueOne, rewriteOne] ++ takeBatch ++ postOne

def rewrittenBusy : List (Event WorldEvent Env) :=
  [enqueueOne] ++ takeBatch ++ [rewriteOne] ++ postOne

theorem retarget_takes_effect_idle :
    ∃ log, .posted 0 "https://b" :: log <:+
        ((start plainOutside 1).exec (world plainOutside) rewrittenIdle).state.log ∧
      target 0 log = some "https://b" ∧ ∀ u ∈ target 0 log, "https://b" = u := by
  have hlog : ((start plainOutside 1).exec (world plainOutside) rewrittenIdle).state.log =
      [.written 0 "https://b", .answered 0 "https://b" (some [0x7b, 0x7d]) 503,
        .posted 0 "https://b", .dequeued, .breaker (.check 0) {} {},
        .rewritten "https://b" [(0, "https://a")] [], .accepted 0 [0x7b, 0x7d]] := by
    decide +kernel
  have hagrees :
      HandAgrees ((start plainOutside 1).exec (world plainOutside) rewrittenIdle).state.log := by
    rw [hlog]
    intro url rows hand hmem
    simp only [mem_cons, reduceCtorEq, rewritten.injEq, not_mem_nil, or_false, false_or] at hmem
    rw [hmem.2.2]
    simp
  have hposted : .posted 0 "https://b" :: [.dequeued, .breaker (.check 0) {} {},
      .rewritten "https://b" [(0, "https://a")] [], .accepted 0 [0x7b, 0x7d]] <:+
      ((start plainOutside 1).exec (world plainOutside) rewrittenIdle).state.log := by
    rw [hlog]
    exact ⟨[.written 0 "https://b", .answered 0 "https://b" (some [0x7b, 0x7d]) 503], rfl⟩
  exact ⟨_, hposted, by decide, (retarget_takes_effect plainOutside 1 rewrittenIdle hagrees 0
    "https://b" _).1 hposted⟩

/-- **A row in hand goes to the old URL**: after the rewrite the payload is posted to
`https://a`, and the failure is counted on the row that points at `https://b`. -/
theorem posted_to_old_url :
    ((start plainOutside 1).exec (world plainOutside) rewrittenBusy).state.log =
        [.written 0 "https://a", .answered 0 "https://a" (some [0x7b, 0x7d]) 503,
          .posted 0 "https://a", .rewritten "https://b" [(0, "https://a")] [(0, "https://a")],
          .dequeued, .breaker (.check 0) {} {}, .accepted 0 [0x7b, 0x7d]] ∧
      ((start plainOutside 1).exec (world plainOutside) rewrittenBusy).state.queue.map
          (fun r => (r.url, r.attempts, r.nextAttemptAt)) = [("https://b", 1, 15)] := by
  decide +kernel

end ArcRelay.Archive
