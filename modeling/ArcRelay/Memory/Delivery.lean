import ArcRelay.Memory.Store
import ArcRelay.Memory.Watermark

/-!
# Delivery of a transcript to the store

The watcher of one transcript and the store of the relay, put together over a network
that loses posts, loses replies, answers 413, fails, and delivers a body again at any
later time.  The watcher may be stopped at any point and started again from the state
it saved last.  Other sessions are written all the while.

What holds is that every line below the saved watermark that the parser makes a message
with a uuid of is in the store, unless it was given up as too large, and that each uuid
is there once.  The rows follow the file as well, in this form: a line that was never
given up is stored before any uuid that occurs in the file only after it.  A line that
*was* given up can still arrive later, when a retry cuts the file differently, and then
it arrives out of order (`delivered_out_of_order`).

The invariant is about the log of the watcher and the tables only (`Delivered`), so it
is handed to the rules of `ArcRelay.Memory.Watermark` as it is.

* `transcript_delivered`: what is below the watermark is in the store, once, in order.
-/

namespace ArcRelay.Memory

open Interleave Json Lines Watcher List

/-! ### The store behind the network -/

structure Relay where
  db : DB
  sent : List Watcher.IngestRequest := []

inductive Net where
  | deliver (now : ℤ) (fault : Option Fault) (replyLost : Bool)
  /-- The relay, or a proxy in front of it, answers 413. -/
  | tooLarge
  | transient (status : ℕ)
  | lost

/-- The status the ingest handler answers a failed ingest with. -/
def statusOf : Refusal → ℕ
  | .foreignSession => 409
  | .sessionIDRequired => 400
  | .platformRequired => 400
  | .unknownPlatform => 400
  | .parse => 500
  | .storage _ => 500

def answerOf : Except Refusal IngestAnswer → HttpAnswer
  | .ok a => .answered 200 (some { messagesAdded := a.messagesAdded })
  | .error e => .answered (statusOf e) none

def relay (svc : Service) (userID : String) (r : Relay) (req : Watcher.IngestRequest) (net : Net) :
    Relay × HttpAnswer :=
  let r := { r with sent := req :: r.sent }
  match net with
  | .deliver now fault replyLost =>
    let res := ingest svc r.db ⟨userID, .ofWatcher req, now, fault⟩
    ({ r with db := res.1 }, if replyLost then .failed else answerOf res.2)
  | .tooLarge => (r, .answered 413 none)
  | .transient status => (r, .answered (if 400 ≤ status ∧ status ≠ 413 then status else 500) none)
  | .lost => (r, .failed)

/-- What happens to the store between two posts. -/
inductive RelayEvent where
  /-- A body the watcher has sent arrives once more. -/
  | replay (i : ℕ) (now : ℤ) (fault : Option Fault)
  | other (c : IngestCall)

/-- The effect of such an event.  Only this watcher writes to its session: of the calls
of others that name it, those stay that the store turns away. -/
def relayWorld (svc : Service) (userID sessionID : String) : RelayEvent → Relay → Relay
  | .replay i now fault, r =>
    match r.sent[i]? with
    | some req => { r with db := (ingest svc r.db ⟨userID, .ofWatcher req, now, fault⟩).1 }
    | none => r
  | .other c, r =>
    if c.req.sessionID = sessionID ∧ ¬ (c.userID ≠ userID ∧ r.db.owner sessionID = some userID) then
      r
    else { r with db := (ingest svc r.db c).1 }

/-! ### The invariant -/

/-- The record at `off` was given up as too large at some time: it is over the ceiling,
or it was refused alone. -/
def GivenUp (log : List Entry) (off : ℕ) : Prop :=
  (∃ len, .skipped off len ∈ log) ∨
    ∃ req, .posted off req (.error (.http 413)) ∈ log ∧ req.jsonl.count newline = 1

variable {off : ℕ} {t : Tables} {u sid : String} {w : MemoryWatcher} {svc : Service}
  {parseTimestamp : String → Option ℤ} {msgs : List Message}

theorem GivenUp.mono {log log' : List Entry} (h : GivenUp log off) (hl : log <:+ log') :
    GivenUp log' off := by
  rcases h with ⟨len, hmem⟩ | ⟨req, hmem, hone⟩
  · exact .inl ⟨len, hl.mem hmem⟩
  · exact .inr ⟨req, hl.mem hmem, hone⟩

def Stored (t : Tables) (sid u : String) : Prop :=
  ∃ a ∈ t.messages, a.sessionID = sid ∧ a.uuid = u

theorem Stored.mono {t' : Tables} (h : Stored t sid u) (ht : t.messages <+: t'.messages) :
    Stored t' sid u := by
  obtain ⟨a, ha, hkey⟩ := h
  exact ⟨a, ht.mem ha, hkey⟩

variable (isPrint : Char → Bool) (sid : String)

/-- The row stands where the file puts it: its uuid occurs in the file, and every line in
front of the first occurrence that was never given up was stored before it. -/
structure InPlace (content : Bytes) (log : List Entry) (t : Tables) (m : Message) : Prop where
  occurs : ∃ p ∈ linesAt newline 0 content, lineUUID isPrint p.2 = some m.uuid
  ordered : ∀ p ∈ linesAt newline 0 content, ∀ u, lineUUID isPrint p.2 = some u →
    ¬ GivenUp log p.1 →
    (∀ q ∈ linesAt newline 0 content, lineUUID isPrint q.2 = some m.uuid → p.1 < q.1) →
    ∃ a ∈ t.messages, a.sessionID = sid ∧ a.uuid = u ∧ a.id < m.id

structure Delivered (content : Bytes) (log : List Entry) (r : Relay) : Prop where
  accepted : ∀ off req resp, .posted off req (.ok resp) ∈ log →
    ∀ p ∈ linesAt newline off req.jsonl, ∀ u, lineUUID isPrint p.2 = some u →
      Stored r.db.toTables sid u
  sent : ∀ req ∈ r.sent, req.sessionID = sid ∧ ∃ off outcome, .posted off req outcome ∈ log
  inPlace : ∀ m ∈ r.db.messages, m.sessionID = sid → m.uuid ≠ "" →
    InPlace isPrint sid content log r.db.toTables m

variable {isPrint sid} {content : Bytes} {log : List Entry} {r : Relay}

variable (h : Delivered isPrint sid content log r)

include h in
/-- **A line behind which everything is accounted for is stored, unless it was given
up.** -/
theorem Delivered.stored_of_good (hgood : Good w content log off) {p : ℕ × Bytes}
    (hp : p ∈ linesAt newline 0 content) (hlt : p.1 < off)
    (hu : lineUUID isPrint p.2 = some u) (hkept : ¬ GivenUp log p.1) :
    Stored r.db.toTables sid u := by
  obtain ⟨o, unit, hrec, hle, hlt', hwhy⟩ := hgood.settled p.1 hlt
  have hline := mem_linesAt_of_at hrec.start hrec.sits hrec.ends hp hle hlt'
  rcases hwhy with ⟨req, resp, hmem, rfl⟩ | ⟨hone, hwhy⟩
  · exact h.accepted o req resp hmem p hline u hu
  -- the unit is a single record, so the line starts where it does
  have hstart : p.1 = o := fst_of_mem_linesAt hone hline
  subst hstart
  refine absurd ?_ hkept
  rcases hwhy with ⟨req, hmem, rfl⟩ | ⟨hmem, -⟩
  · exact .inr ⟨req, hmem, hone⟩
  · exact .inl ⟨_, hmem⟩

/-! ### Every step keeps it -/

theorem uuids_of_validate (hsvc : svc = ⟨shippedRegistry isPrint, parseTimestamp⟩)
    {req : IngestRequest} {events : List CompactEvent} (h : validate svc req = .ok (msgs, events))
    (hends : Ends newline req.jsonl) (off : ℕ) :
    msgs.map (·.uuid) = (linesAt newline off req.jsonl).filterMap fun p =>
      (lineMessage isPrint p.2).map (·.uuid) := by
  subst hsvc
  unfold validate at h
  split at h
  · simp at h
  split at h
  · simp at h
  split at h
  · simp at h
  next parser hparser =>
  split at h
  · simp at h
  next parsed events' hparse =>
  obtain ⟨rfl, -⟩ := Prod.mk.inj (Except.ok.inj h)
  simp only [shippedRegistry, Option.ite_none_right_eq_some, Option.some.injEq] at hparser
  rw [← hparser.2] at hparse
  have huuids := messages_parse hparse
  have htokens : scanTokens req.jsonl = (linesAt newline off req.jsonl).map (·.2) :=
    scanTokens_of_ends hends
  rw [htokens] at huuids
  rw [map_map]
  have hcomp : (fun m : Message => m.uuid) ∘ messageOf req = fun m => m.uuid := rfl
  rw [hcomp, huuids, filterMap_map, map_filterMap]
  rfl

include h in
theorem Delivered.grow {db : DB}
    (hpre : r.db.messages <+: db.messages)
    (hnew : ∀ m ∈ db.messages, m ∉ r.db.messages → m.sessionID = sid → m.uuid ≠ "" →
      InPlace isPrint sid content log db.toTables m) :
    Delivered isPrint sid content log { r with db := db } := by
  refine ⟨fun off req resp hmem p hp u hu => (h.accepted off req resp hmem p hp u hu).mono hpre,
    h.sent, fun m hm hsid hne => ?_⟩
  by_cases hold : m ∈ r.db.messages
  · obtain ⟨hocc, hord⟩ := h.inPlace m hold hsid hne
    refine ⟨hocc, fun p hp u hu hkept hbefore => ?_⟩
    obtain ⟨a, ha, hkey⟩ := hord p hp u hu hkept hbefore
    exact ⟨a, hpre.mem ha, hkey⟩
  · exact hnew m hm hold hsid hne

theorem line_of_new_row {lines : List (ℕ × Bytes)}
    (huuids : msgs.map (·.uuid) = lines.filterMap fun p => (lineMessage isPrint p.2).map (·.uuid))
    (hsession : ∀ m ∈ msgs, m.sessionID = sid) (hsorted : lines.Pairwise fun p q => p.1 < q.1)
    (hfresh : ∀ m ∈ t.messages, m.id < t.nextID) {a : Message}
    (ha : a ∈ (t.bulkInsert msgs).1.messages) (hnew : a ∉ t.messages) (hne : a.uuid ≠ "") :
    t.nextID ≤ a.id ∧ ∃ q ∈ lines, lineUUID isPrint q.2 = some a.uuid ∧
      ∀ p ∈ lines, p.1 < q.1 → ∀ u, lineUUID isPrint p.2 = some u →
        ∃ b ∈ (t.bulkInsert msgs).1.messages, b.sessionID = sid ∧ b.uuid = u ∧ b.id < a.id := by
  obtain ⟨hge, ms1, m, ms2, rfl, -, huuid, hbefore⟩ := Tables.new_bulkInsert hfresh ha hnew
  refine ⟨hge, ?_⟩
  rw [map_append, map_cons] at huuids
  obtain ⟨l1, l2, rfl, hl1, hl2⟩ := filterMap_eq_append_iff.mp huuids.symm
  obtain ⟨skip, q, rest, rfl, hskip, hq, -⟩ := filterMap_eq_cons_iff.mp hl2
  refine ⟨q, by simp, lineUUID_eq_some.mpr ⟨by rw [hq, huuid], hne⟩, fun p hp hlt u hu => ?_⟩
  have hu' := (lineUUID_eq_some.mp hu).1
  -- the line stands in front of `q`, and it is not one of those without a message
  have hfront : p ∈ l1 := by
    rcases mem_append.mp hp with hp | hp
    · exact hp
    rcases mem_append.mp hp with hp | hp
    · rw [hskip p hp] at hu'
      simp at hu'
    have hpw := (pairwise_append.mp (pairwise_append.mp hsorted).2.1).2.1
    rcases mem_cons.mp hp with rfl | hp
    · omega
    have := (pairwise_cons.mp hpw).1 p hp
    omega
  have hmem : u ∈ ms1.map (·.uuid) := by
    rw [← hl1]
    exact mem_filterMap.mpr ⟨p, hfront, hu'⟩
  obtain ⟨m', hm', rfl⟩ := mem_map.mp hmem
  obtain ⟨b, hb, hbsid, hbu, hlt'⟩ := hbefore m' hm'
  exact ⟨b, hb, hbsid.trans (hsession m' (mem_append_left _ hm')), hbu, hlt'⟩

include h in
/-- **Ingesting a run of whole records behind everything that is accounted for** keeps the
store in place, and stores every line of the run when it succeeds. -/
theorem Delivered.ingest (hsvc : svc = ⟨shippedRegistry isPrint, parseTimestamp⟩)
    (req : Watcher.IngestRequest) (hsid : req.sessionID = sid)
    (hrec : Records content off req.jsonl) (hgood : Good w content log off)
    (userID : String) (now : ℤ) (fault : Option Fault) :
    Delivered isPrint sid content log
        { r with db := (Memory.ingest svc r.db ⟨userID, .ofWatcher req, now, fault⟩).1 } ∧
      ∀ a, (Memory.ingest svc r.db ⟨userID, .ofWatcher req, now, fault⟩).2 = .ok a →
        ∀ p ∈ linesAt newline off req.jsonl, ∀ u, lineUUID isPrint p.2 = some u →
          Stored (Memory.ingest svc r.db ⟨userID, .ofWatcher req, now, fault⟩).1.toTables sid
            u := by
  rcases ingest_cases svc r.db ⟨userID, .ofWatcher req, now, fault⟩ with
    ⟨e, he⟩ | ⟨msgs, events, hv, -, ht, -⟩
  · rw [he]
    exact ⟨h, fun a ha => absurd ha (by simp)⟩
  have hsession : ∀ m ∈ msgs, m.sessionID = sid := fun m hm =>
    (sessionID_of_validate hv m hm).trans hsid
  have huuids := uuids_of_validate hsvc hv hrec.ends off
  -- only the bulk insert touches the messages
  have hmsgs : (Memory.ingest svc r.db ⟨userID, .ofWatcher req, now, fault⟩).1.messages =
      ((r.db.toTables.upsertSession (sessionOfCall ⟨userID, .ofWatcher req, now, fault⟩)).bulkInsert
        msgs).1.messages := by
    rw [ht]
    rfl
  obtain ⟨hpre, -⟩ := (r.db.toTables.upsertSession
    (sessionOfCall ⟨userID, .ofWatcher req, now, fault⟩)).messages_bulkInsert msgs
  refine ⟨h.grow (hmsgs ▸ hpre) fun m hm hnew _ hne => ?_, fun a _ p hp u hu => ?_⟩
  · rw [hmsgs] at hm
    have hsorted : (linesAt newline off req.jsonl).Pairwise fun p q => p.1 < q.1 :=
      linesAt_sorted.imp fun hlt => by omega
    obtain ⟨hge, q, hq, hqu, hbefore⟩ :=
      line_of_new_row (t := r.db.toTables.upsertSession _) huuids hsession hsorted r.db.ok.fresh
        hm hnew hne
    refine ⟨⟨q, linesAt_of_at hrec.start hrec.sits hrec.ends hq, hqu⟩,
      fun p hp u hu hkept hfirst => ?_⟩
    have hlt := hfirst q (linesAt_of_at hrec.start hrec.sits hrec.ends hq) hqu
    rcases Nat.lt_or_ge p.1 off with hlow | hhigh
    · -- in front of the run: stored by an earlier ingest
      obtain ⟨b, hb, hbsid, hbu⟩ := h.stored_of_good hgood hp hlow hu hkept
      exact ⟨b, hmsgs ▸ hpre.mem hb, hbsid, hbu, lt_of_lt_of_le (r.db.ok.fresh b hb) hge⟩
    -- inside the run: stored by this one, before the row
    have hq' : q.1 + q.2.length < off + req.jsonl.length := (linesAt_range hq).2
    have hline := mem_linesAt_of_at hrec.start hrec.sits hrec.ends hp hhigh (by omega)
    obtain ⟨b, hb, hkey⟩ := hbefore p hline hlt u hu
    exact ⟨b, hmsgs ▸ hb, hkey⟩
  · have hmem : u ∈ msgs.map (·.uuid) := by
      rw [huuids]
      exact mem_filterMap.mpr ⟨p, hp, (lineUUID_eq_some.mp hu).1⟩
    obtain ⟨m, hm, rfl⟩ := mem_map.mp hmem
    obtain ⟨b, hb, hbsid, hbu⟩ := Tables.stored_bulkInsert _ msgs m hm
    exact ⟨b, hmsgs ▸ hb, hbsid.trans (hsession m hm), hbu⟩

include h in
theorem Delivered.log_cons {e : Entry}
    (he : ∀ off req resp, e = .posted off req (.ok resp) →
      ∀ p ∈ linesAt newline off req.jsonl, ∀ u, lineUUID isPrint p.2 = some u →
        Stored r.db.toTables sid u) :
    Delivered isPrint sid content (e :: log) r := by
  refine ⟨fun off req resp hmem => ?_, fun req hreq => ?_, fun m hm hsid hne => ?_⟩
  · rcases mem_cons.mp hmem with heq | hmem
    · exact he off req resp heq.symm
    · exact h.accepted off req resp hmem
  · obtain ⟨hsid, off, outcome, hmem⟩ := h.sent req hreq
    exact ⟨hsid, off, outcome, mem_cons_of_mem _ hmem⟩
  · obtain ⟨hocc, hord⟩ := h.inPlace m hm hsid hne
    refine ⟨hocc, fun p hp u hu hkept => hord p hp u hu fun hgiven => hkept ?_⟩
    exact hgiven.mono (suffix_cons _ _)

include h in
theorem Delivered.append (bytes : Bytes) : Delivered isPrint sid (content ++ bytes) log r := by
  refine ⟨h.accepted, h.sent, fun m hm hsid hne => ?_⟩
  obtain ⟨⟨q, hq, hqu⟩, hord⟩ := h.inPlace m hm hsid hne
  have hmono : ∀ p ∈ linesAt newline 0 content, p ∈ linesAt newline 0 (content ++ bytes) :=
    fun p hp => (linesAt_grow bytes).mem hp
  refine ⟨⟨q, hmono q hq, hqu⟩, fun p hp u hu hkept hfirst => ?_⟩
  by_cases hold : p ∈ linesAt newline 0 content
  · exact hord p hold u hu hkept fun q' hq' => hfirst q' (hmono q' hq')
  -- the line is new, so it stands behind the occurrence of the uuid that is stored
  have hlt := hfirst q (hmono q hq) hqu
  have := lt_of_new_line hp hold hq
  omega

include h in
theorem Delivered.send {req : Watcher.IngestRequest} {outcome : Except IngestError IngestResponse}
    (hsid : req.sessionID = sid) (hmem : .posted off req outcome ∈ log) :
    Delivered isPrint sid content log { r with sent := req :: r.sent } := by
  refine ⟨h.accepted, fun req' hreq' => ?_, h.inPlace⟩
  rcases mem_cons.mp hreq' with rfl | hreq'
  · exact ⟨hsid, off, outcome, hmem⟩
  · exact h.sent req' hreq'

include h in
theorem Delivered.other (svc : Service) (userID : String)
    (c : IngestCall) : Delivered isPrint sid content log
      (relayWorld svc userID sid (.other c) r) := by
  simp only [relayWorld]
  split
  · exact h
  next hallowed =>
  rcases ingest_cases svc r.db c with ⟨e, he⟩ | ⟨msgs, events, hv, howner, ht, -⟩
  · rw [he]
    exact h
  -- a successful call is not into this session
  have hsid : c.req.sessionID ≠ sid := by
    rintro rfl
    refine hallowed ⟨rfl, fun ⟨huser, hown⟩ => ?_⟩
    rw [hown] at howner
    rcases howner with hnone | hsome
    · simp at hnone
    · exact huser (Option.some.inj hsome).symm
  obtain ⟨hpre, hmem⟩ : r.db.messages <+: (ingestTx svc c msgs r.db.toTables).1.messages ∧ _ :=
    messages_ingestTx (sessionID_of_validate hv)
  refine h.grow (by rw [ht]; exact hpre) fun m hm hnew hmsid _ => ?_
  rw [ht] at hm
  rcases hmem m hm with hm | hm
  · exact absurd hm hnew
  · exact absurd (hm.symm.trans hmsid) hsid

theorem ok_of_postIngest {replyLost : Bool} {res : Except Refusal IngestAnswer}
    {resp : IngestResponse}
    (h : postIngest (if replyLost then .failed else answerOf res) = .ok resp) :
    ∃ a, res = .ok a := by
  cases replyLost with
  | true => simp [postIngest] at h
  | false => ?_
  cases res with
  | ok a => exact ⟨a, rfl⟩
  | error e => cases e <;> simp [postIngest, answerOf, statusOf] at h

/-- **Posts, replays and the writes of others keep what is delivered.** -/
theorem delivered_keeps (isPrint : Char → Bool) (parseTimestamp : String → Option ℤ)
    (w : MemoryWatcher) (path userID : String) :
    RelayKeeps (Delivered isPrint (sessionOf path))
      (relay ⟨shippedRegistry isPrint, parseTimestamp⟩ userID)
      (relayWorld ⟨shippedRegistry isPrint, parseTimestamp⟩ userID (sessionOf path)) w path where
  post := by
    intro content log r fs unit off mtime net _ hJ hrec hgood req
    -- a post that is not ingested changes the log only
    have hfailed : ∀ e, Delivered isPrint (sessionOf path) content
        (.posted off req (.error e) :: log) { r with sent := req :: r.sent } := fun e =>
      (hJ.log_cons fun _ _ _ heq => by simp at heq).send rfl mem_cons_self
    cases net with
    | deliver now fault replyLost =>
      obtain ⟨hdb, hstored⟩ := hJ.ingest rfl req rfl hrec hgood userID now fault
      refine (hdb.log_cons fun off' req' resp heq => ?_).send rfl mem_cons_self
      obtain ⟨rfl, rfl, hok⟩ := Entry.posted.inj heq
      obtain ⟨a, ha⟩ := ok_of_postIngest hok
      -- the goal names the store through a record: unfolding `ingest` to see that is slow
      have hall := hstored a ha
      dsimp only
      exact hall
    | tooLarge => exact hfailed (.http 413)
    | transient status =>
      have hstatus : 400 ≤ (if 400 ≤ status ∧ status ≠ 413 then status else 500) := by
        split <;> omega
      simp only [relay, postIngest, hstatus, if_true]
      exact hfailed _
    | lost => exact hfailed .transport
  skipped := fun content log r off len hJ => hJ.log_cons fun _ _ _ heq => by simp at heq
  scheduled := fun content log r sid hJ => hJ.log_cons fun _ _ _ heq => by simp at heq
  append := fun content log r bytes hJ => hJ.append bytes
  world := by
    intro content log r h hlog hJ
    cases h with
    | other c => exact hJ.other _ _ c
    | replay i now fault => ?_
    simp only [relayWorld]
    split
    · next req hreq =>
      obtain ⟨hsid, off, outcome, hmem⟩ := hJ.sent req (mem_of_getElem? hreq)
      obtain ⟨before, hsuf, hrec, hgood⟩ := hlog.of_mem hmem
      have hgood' := hgood.mono (prefix_refl _) ((suffix_cons _ _).trans hsuf)
      exact (hJ.ingest rfl req hsid hrec hgood' userID now fault).1
    · exact hJ

/-! ### Runs -/

abbrev Schedule := List (Event (WorldEvent RelayEvent) (Env Net))

/-- One lifetime: the watcher starts from the state it saved last, scans some number of
times, and is stopped wherever the schedule ends. -/
def lifetime (svc : Service) (userID : String) (w : MemoryWatcher) (path : String)
    (s : State Relay) (scans : ℕ) (sched : Schedule) : State Relay :=
  (watch (relay svc userID) (relayWorld svc userID (sessionOf path)) w path scans
    { s with fs := s.saved } sched).state

def lifetimes (svc : Service) (userID : String) (w : MemoryWatcher) (path : String)
    (s : State Relay) (lives : List (ℕ × Schedule)) : State Relay :=
  lives.foldl (fun s life => lifetime svc userID w path s life.1 life.2) s

theorem lifetimes_inv (isPrint : Char → Bool) (parseTimestamp : String → Option ℤ)
    (userID : String) (w : MemoryWatcher) (path : String) (lives : List (ℕ × Schedule))
    (s : State Relay) (hI : Inv (Delivered isPrint (sessionOf path)) w s) :
    Inv (Delivered isPrint (sessionOf path)) w
      (lifetimes ⟨shippedRegistry isPrint, parseTimestamp⟩ userID w path s lives) := by
  induction lives generalizing s with
  | nil => exact hI
  | cons life lives ih => ?_
  have hrestart : Inv (Delivered isPrint (sessionOf path)) w { s with fs := s.saved } :=
    ⟨hI.log, hI.saved, hI.saved, hI.relay⟩
  exact ih _ (watch_inv (delivered_keeps isPrint parseTimestamp w path userID) _ _ hrestart
    life.2 []).1

theorem Tables.Ok.once (h : t.Ok) (sid : String) (hu : u ≠ "") :
    (t.messages.filter fun m => m.sessionID = sid ∧ m.uuid = u).length ≤ 1 := by
  have hpw := h.uuidKey.filter fun m => decide (m.sessionID = sid ∧ m.uuid = u)
  have hall : ∀ m ∈ t.messages.filter fun m => m.sessionID = sid ∧ m.uuid = u,
      m.sessionID = sid ∧ m.uuid = u := fun m hm => by simpa using (mem_filter.mp hm).2
  revert hpw hall
  cases t.messages.filter fun m => m.sessionID = sid ∧ m.uuid = u with
  | nil => simp
  | cons a l => ?_
  cases l with
  | nil => simp
  | cons b l => ?_
  intro hpw hall
  have ha := hall a (by simp)
  have hb := hall b (by simp)
  refine absurd ⟨ha.2 ▸ hu, ?_, ?_⟩ ((pairwise_cons.mp hpw).1 b (by simp))
  · rw [ha.1, hb.1]
  · rw [ha.2, hb.2]

theorem Stored.once (h : t.Ok) (hs : Stored t sid u) (hu : u ≠ "") :
    (t.messages.filter fun m => m.sessionID = sid ∧ m.uuid = u).length = 1 := by
  obtain ⟨a, ha, hkey⟩ := hs
  have hmem : a ∈ t.messages.filter fun m => m.sessionID = sid ∧ m.uuid = u :=
    mem_filter.mpr ⟨ha, by simpa using hkey⟩
  have hpos := length_pos_of_mem hmem
  have := h.once sid hu
  omega

/-- **Delivery of a transcript.**  Whatever is lost, refused, replayed or restarted:
every line below the saved watermark that makes a message with a uuid is stored exactly
once, unless it was given up as too large; no uuid is ever stored twice; and a row comes
before another when a line of its uuid that was never given up stands in the file in
front of every line of the other's. -/
theorem transcript_delivered (isPrint : Char → Bool) (parseTimestamp : String → Option ℤ)
    (userID : String) (w : MemoryWatcher) (path : String) (content : Bytes) (modTime : ℤ)
    (lives : List (ℕ × Schedule)) :
    let s := lifetimes ⟨shippedRegistry isPrint, parseTimestamp⟩ userID w path
      (start content modTime ⟨.empty, []⟩) lives
    let rows := fun u =>
      s.relay.db.messages.filter fun m => m.sessionID = sessionOf path ∧ m.uuid = u
    (∀ p ∈ linesAt newline 0 (s.content.take s.saved.bytesSeen), ∀ u,
      lineUUID isPrint p.2 = some u → ¬ GivenUp s.log p.1 → (rows u).length = 1) ∧
    (∀ u, u ≠ "" → (rows u).length ≤ 1) ∧
    ∀ u₁ u₂, u₂ ≠ "" → ∀ m₁ ∈ rows u₁, ∀ m₂ ∈ rows u₂, ∀ p ∈ linesAt newline 0 s.content,
      lineUUID isPrint p.2 = some u₁ → ¬ GivenUp s.log p.1 →
      (∀ q ∈ linesAt newline 0 s.content, lineUUID isPrint q.2 = some u₂ → p.1 < q.1) →
      m₁.id < m₂.id := by
  intro s rows
  have hstart : Inv (Delivered isPrint (sessionOf path)) w (start content modTime ⟨.empty, []⟩) :=
    ⟨trivial, Good.zero, Good.zero, ⟨by simp [start], by simp [start], by simp [start, DB.empty]⟩⟩
  have hI := lifetimes_inv isPrint parseTimestamp userID w path lives _ hstart
  have hok : s.relay.db.toTables.Ok := s.relay.db.ok
  refine ⟨fun p hp u hu hkept => ?_, fun u hu => hok.once _ hu, ?_⟩
  · -- a line below the watermark is a line of the file, and all of it is accounted for
    have hlt : p.1 < s.saved.bytesSeen := by
      have hrange := (linesAt_range hp).2
      rw [length_take] at hrange
      omega
    have hp' : p ∈ linesAt newline 0 s.content := by
      rw [linesAt_take_drop hI.saved.aligned]
      exact mem_append_left _ hp
    have hstored := hI.relay.stored_of_good hI.saved hp' hlt hu hkept
    exact hstored.once hok (lineUUID_eq_some.mp hu).2
  · intro u₁ u₂ hu2 m₁ hm1 m₂ hm2 p hp hu hkept hfirst
    simp only [rows, mem_filter, decide_eq_true_eq] at hm1 hm2
    obtain ⟨hm1, hsid1, rfl⟩ := hm1
    obtain ⟨hm2, hsid2, rfl⟩ := hm2
    obtain ⟨-, hord⟩ := hI.relay.inPlace m₂ hm2 hsid2 hu2
    obtain ⟨a, ha, hasid, hau, hlt⟩ := hord p hp m₁.uuid hu hkept hfirst
    -- the row that was there first is the only one with its uuid
    have hone : a = m₁ := by
      refine hok.unique ha hm1 ⟨?_, hasid.trans hsid1.symm, hau⟩
      rw [hau]
      exact (lineUUID_eq_some.mp hu).2
    rw [← hone]
    exact hlt

/-! ### A record that is given up and arrives after all -/

def twoRecords : Bytes :=
  utf8 "\x7b\"type\":\"user\",\"uuid\":\"a\"\x7d\n\x7b\"type\":\"user\",\"uuid\":\"b\"\x7d\n"

def stepWith (net : Net) : Event (WorldEvent RelayEvent) (Env Net) := .run 0 ⟨true, true, net⟩

/-- In the first scan the two records are refused together and the first one alone, and
the reply to the second is lost; in the second scan both are taken together. -/
def retriedTogether : Schedule :=
  replicate 6 (stepWith .lost) ++
    [stepWith .tooLarge, stepWith .tooLarge, stepWith .lost, stepWith (.deliver 0 none true)] ++
    replicate 8 (stepWith .lost) ++ [stepWith (.deliver 0 none false)] ++
    replicate 6 (stepWith .lost)

/-- **The rows do not always follow the file**: a record that was refused alone is stored
behind its successor when a later attempt sends both together. -/
theorem delivered_out_of_order :
    ¬ ∀ (isPrint : Char → Bool) (parseTimestamp : String → Option ℤ) (userID : String)
      (w : MemoryWatcher) (path : String) (content : Bytes) (modTime : ℤ)
      (lives : List (ℕ × Schedule)),
      let s := lifetimes ⟨shippedRegistry isPrint, parseTimestamp⟩ userID w path
        (start content modTime ⟨.empty, []⟩) lives
      ∀ m₁ ∈ s.relay.db.messages, m₁.sessionID = sessionOf path →
      ∀ m₂ ∈ s.relay.db.messages, m₂.sessionID = sessionOf path →
      ∀ p ∈ linesAt newline 0 s.content, lineUUID isPrint p.2 = some m₁.uuid →
        (∀ q ∈ linesAt newline 0 s.content, lineUUID isPrint q.2 = some m₂.uuid → p.1 < q.1) →
        m₁.id < m₂.id := by
  intro h
  have hrun := h (fun _ => true) (fun _ => none) "u" { maxChunkBytes := 100 } "/p/s.jsonl"
    twoRecords 1 [(2, retriedTogether)]
  revert hrun
  decide +kernel

end ArcRelay.Memory
