import ArcRelay.Memory.Store
import Mathlib.Data.Set.Basic

/-!
# Repeated ingests

A watcher that does not see the answer to an ingest sends it again, perhaps much later and
after others.  The store tolerates this: a message with a uuid is stored once, as it was
first ingested, whatever is repeated afterwards, and the columns that say where a session
comes from stay those of its first ingest.

What is stored under a uuid is a lookup, and an ingest extends it: the row that was there
stays, and otherwise the first message of the request with this uuid is the row
(`firstRow_ingest`).  A request that has been executed once adds nothing more
(`Settled`), so inserting it again leads to a store that agrees with the other one in all
that counts (`Agree`).

* `WithRepeats`: a sequence of calls with repeats put in.
* `replay_tolerated`: it leads to the same rows.
-/

namespace ArcRelay.Memory

open Option List

/-! ### What is stored under a uuid -/

def Message.asIngested (m : Message) : Message := { m with id := 0 }

def firstRow (sid u : String) (ms : List Message) : Option Message :=
  (ms.find? fun m => m.sessionID = sid ∧ m.uuid = u).map Message.asIngested

variable {sid u : String} {ms : List Message} {m : Message}

theorem firstRow_append (ms ms' : List Message) :
    firstRow sid u (ms ++ ms') = (firstRow sid u ms).or (firstRow sid u ms') := by
  unfold firstRow
  rw [find?_append, map_or]

theorem firstRow_cons (m : Message) (ms : List Message) :
    firstRow sid u (m :: ms) =
      if m.sessionID = sid ∧ m.uuid = u then some m.asIngested else firstRow sid u ms := by
  unfold firstRow
  by_cases hm : m.sessionID = sid ∧ m.uuid = u
  · simp [hm]
  · simp [hm]

theorem isSome_firstRow (hm : m ∈ ms) : (firstRow m.sessionID m.uuid ms).isSome := by
  rw [firstRow, isSome_map, find?_isSome]
  exact ⟨m, hm, by simp⟩

theorem mem_of_firstRow {r : Message} (h : firstRow sid u ms = some r) :
    ∃ m ∈ ms, m.asIngested = r ∧ m.sessionID = sid ∧ m.uuid = u := by
  obtain ⟨m, hm, hr⟩ := map_eq_some_iff.mp h
  refine ⟨m, mem_of_find?_eq_some hm, hr, ?_⟩
  simpa using find?_some hm

theorem firstRow_of_mem {t : Tables} (h : t.Ok) (hm : m ∈ t.messages) (hu : m.uuid ≠ "") :
    firstRow m.sessionID m.uuid t.messages = some m.asIngested := by
  obtain ⟨r, hr⟩ := isSome_iff_exists.mp (isSome_firstRow hm)
  obtain ⟨a, ha, rfl, hsid, huuid⟩ := mem_of_firstRow hr
  obtain rfl := h.unique hm ha ⟨hu, hsid.symm, huuid.symm⟩
  exact hr

theorem firstRow_insertMessage (t : Tables) (m : Message) :
    firstRow sid u (t.insertMessage m).1.messages =
      (firstRow sid u t.messages).or (firstRow sid u [m]) := by
  unfold Tables.insertMessage
  split
  · next hdup =>
    -- the message is there already, so nothing is missing under its uuid
    obtain ⟨a, ha, hkey⟩ := any_eq_true.mp hdup
    simp only [decide_eq_true_eq] at hkey
    obtain ⟨-, hsid, huuid⟩ := hkey
    rw [firstRow_cons]
    split
    · next hm =>
      have hsome := isSome_firstRow ha
      rw [hsid, huuid, hm.1, hm.2] at hsome
      exact (or_of_isSome hsome).symm
    · exact (or_none).symm
  · rw [firstRow_append, firstRow_cons, firstRow_cons]
    rfl

theorem firstRow_bulkInsert (t : Tables) (ms : List Message) :
    firstRow sid u (t.bulkInsert ms).1.messages =
      (firstRow sid u t.messages).or (firstRow sid u ms) := by
  induction ms generalizing t with
  | nil => exact (or_none).symm
  | cons m ms ih => ?_
  have hcons : firstRow sid u (m :: ms) = (firstRow sid u [m]).or (firstRow sid u ms) :=
    firstRow_append [m] ms
  rw [Tables.bulkInsert, ih, firstRow_insertMessage, hcons, Option.or_assoc]

/-! ### What a run brings -/

def committed (svc : Service) (db : DB) (c : IngestCall) : List Message :=
  match (ingest svc db c).2, validate svc c.req with
  | .ok _, .ok (msgs, _) => msgs
  | _, _ => []

def ingested (svc : Service) : DB → List IngestCall → List Message
  | _, [] => []
  | db, c :: calls => committed svc db c ++ ingested svc (ingest svc db c).1 calls

def firstIngest (svc : Service) (sid : String) : DB → List IngestCall → Option IngestCall
  | _, [] => none
  | db, c :: calls =>
    if c.req.sessionID = sid ∧ (ingest svc db c).2.toBool then some c
    else firstIngest svc sid (ingest svc db c).1 calls

/-- The columns of a session that only its first ingest writes. -/
structure Origin where
  userID : String
  rawCwd : String
  projectKey : String
  isSubagent : Bool
  sourceParentSessionID : String

def Session.origin (s : Session) : Origin where
  userID := s.userID
  rawCwd := s.rawCwd
  projectKey := s.projectKey
  isSubagent := s.isSubagent
  sourceParentSessionID := s.sourceParentSessionID

def Tables.origin (t : Tables) (sid : String) : Option Origin := (t.session sid).map Session.origin

variable {svc : Service} {db : DB} {c : IngestCall} {time : ℤ}

/-- **An ingest fails and changes nothing, or commits the messages of its request.** -/
theorem ingest_committed (svc : Service) (db : DB) (c : IngestCall) :
    ((ingest svc db c).2.toBool = false ∧ (ingest svc db c).1 = db ∧ committed svc db c = []) ∨
      ∃ msgs events, validate svc c.req = .ok (msgs, events) ∧ committed svc db c = msgs ∧
        (ingest svc db c).2.toBool = true ∧
        (db.owner c.req.sessionID = none ∨ db.owner c.req.sessionID = some c.userID) ∧
        (ingest svc db c).1.toTables = (ingestTx svc c msgs db.toTables).1 := by
  rcases ingest_cases svc db c with ⟨e, he⟩ | ⟨msgs, events, hv, howner, htables, hans⟩
  · refine .inl ⟨?_, ?_, ?_⟩
    · rw [he]
      rfl
    · rw [he]
    · rw [committed, he]
  refine .inr ⟨msgs, events, hv, ?_, ?_, howner, htables⟩
  · rw [committed, hans, hv]
  rw [hans]
  rfl

theorem ingest_ok_iff (svc : Service) (db : DB) (c : IngestCall) :
    (ingest svc db c).2.toBool = true ↔
      (validate svc c.req).toBool = true ∧ c.fault = none ∧
        ¬ (db.owner c.req.sessionID ≠ none ∧ db.owner c.req.sessionID ≠ some c.userID) := by
  unfold ingest
  split
  · next e hv => simp [hv, Except.toBool]
  next msgs events hv =>
  split
  · next hf => simp [hf, Except.toBool]
  split
  · next hf => simp [hf, Except.toBool]
  split
  · next hforeign => simp [hforeign, Except.toBool]
  next hown =>
  split
  · next f hf => simp [hf, Except.toBool]
  · next hf => simp [hv, hf, hown, Except.toBool]

theorem firstRow_ingest (svc : Service) (db : DB) (c : IngestCall) :
    firstRow sid u (ingest svc db c).1.messages =
      (firstRow sid u db.messages).or (firstRow sid u (committed svc db c)) := by
  rcases ingest_committed svc db c with ⟨-, hdb, hnone⟩ | ⟨msgs, events, -, hmsgs, -, -, htables⟩
  · rw [hdb, hnone]
    exact (or_none).symm
  · rw [htables, hmsgs]
    exact firstRow_bulkInsert (db.upsertSession (sessionOfCall c)) msgs

/-- **What is stored under a uuid after a run**: what was there before, or else what the
run brings first. -/
theorem firstRow_run (svc : Service) (db : DB) (calls : List IngestCall) :
    firstRow sid u (run svc db calls).messages =
      (firstRow sid u db.messages).or (firstRow sid u (ingested svc db calls)) := by
  induction calls generalizing db with
  | nil => exact (or_none).symm
  | cons c calls ih =>
    have hrun : run svc db (c :: calls) = run svc (ingest svc db c).1 calls := rfl
    rw [hrun, ih, firstRow_ingest, ingested, firstRow_append, Option.or_assoc]

theorem session_ingestTx (svc : Service) (c : IngestCall) (msgs : List Message) (t : Tables)
    (sid : String) :
    (ingestTx svc c msgs t).1.session sid =
      if sid = c.req.sessionID then
        some (Tables.stamp c.now (newestTimestamp svc.parseTimestamp msgs) c.req.clientCounters
          (((t.session sid).map (Tables.refresh (sessionOfCall c))).getD (sessionOfCall c)))
      else t.session sid := by
  have hbulk : ((t.upsertSession (sessionOfCall c)).bulkInsert msgs).1.session sid =
      (t.upsertSession (sessionOfCall c)).session sid := by
    unfold Tables.session
    rw [Tables.sessions_bulkInsert]
  have hrecord : (ingestTx svc c msgs t).1.session sid =
      if sid = c.req.sessionID then
        ((t.upsertSession (sessionOfCall c)).session sid).map
          (Tables.stamp c.now (newestTimestamp svc.parseTimestamp msgs) c.req.clientCounters)
      else (t.upsertSession (sessionOfCall c)).session sid := by
    have hfind : (ingestTx svc c msgs t).1.session sid =
        if sid = c.req.sessionID then
          (((t.upsertSession (sessionOfCall c)).bulkInsert msgs).1.session c.req.sessionID).map
            (Tables.stamp c.now (newestTimestamp svc.parseTimestamp msgs) c.req.clientCounters)
        else ((t.upsertSession (sessionOfCall c)).bulkInsert msgs).1.session sid :=
      Table.find_modify fun _ h => h
    rw [hfind, ← hbulk]
    split
    · next h =>
      subst h
      rfl
    · rfl
  rw [hrecord, Tables.session_upsertSession]
  by_cases hsid : sid = c.req.sessionID
  · have hsid' : sid = (sessionOfCall c).sessionID := hsid
    rw [if_pos hsid, if_pos hsid', if_pos hsid]
    rfl
  · have hsid' : sid ≠ (sessionOfCall c).sessionID := hsid
    rw [if_neg hsid, if_neg hsid', if_neg hsid]

theorem origin_ingestTx (svc : Service) (c : IngestCall) (msgs : List Message) (t : Tables)
    (sid : String) :
    (ingestTx svc c msgs t).1.origin sid =
      if sid = c.req.sessionID then some ((t.origin sid).getD (sessionOfCall c).origin)
      else t.origin sid := by
  unfold Tables.origin
  rw [session_ingestTx]
  split
  · -- neither the refreshed columns nor the stamps belong to the origin
    cases t.session sid <;> rfl
  · rfl

theorem origin_run (svc : Service) (db : DB) (calls : List IngestCall) (sid : String) :
    (run svc db calls).origin sid =
      (db.origin sid).or
        ((firstIngest svc sid db calls).map fun c => (sessionOfCall c).origin) := by
  induction calls generalizing db with
  | nil => exact (or_none).symm
  | cons c calls ih => ?_
  have hrun : run svc db (c :: calls) = run svc (ingest svc db c).1 calls := rfl
  rw [hrun, ih, firstIngest]
  rcases ingest_committed svc db c with ⟨hfail, hdb, -⟩ | ⟨msgs, events, -, -, hok, -, htables⟩
  · rw [if_neg (by simp [hfail]), hdb]
  rw [htables, origin_ingestTx]
  by_cases hsid : sid = c.req.sessionID
  · rw [if_pos hsid, if_pos ⟨hsid.symm, hok⟩]
    cases db.origin sid <;> rfl
  · rw [if_neg hsid, if_neg fun h => hsid h.1.symm]

/-! ### The time of the last activity -/

def ActiveSince (t : Tables) (sid : String) (time : ℤ) : Prop :=
  ∃ s later, t.session sid = some s ∧ s.lastActivityAt = some later ∧ time ≤ later

theorem ActiveSince.ingest (h : ActiveSince db.toTables sid time) :
    ActiveSince (ingest svc db c).1.toTables sid time := by
  rcases ingest_committed svc db c with ⟨-, hdb, -⟩ | ⟨msgs, events, -, -, -, -, htables⟩
  · rw [hdb]
    exact h
  obtain ⟨s, later, hs, hlater, hle⟩ := h
  rw [htables, ActiveSince, session_ingestTx, hs]
  split
  · -- the stamp takes the larger of the two times
    refine ⟨_, (newestTimestamp svc.parseTimestamp msgs).elim later fun newest => max later newest,
      rfl, ?_, ?_⟩
    · simp only [Tables.stamp, map_some, getD_some, Tables.refresh, hlater]
      cases newestTimestamp svc.parseTimestamp msgs <;> rfl
    cases newestTimestamp svc.parseTimestamp msgs with
    | none => exact hle
    | some newest => exact hle.trans (le_max_left _ _)
  · exact ⟨s, later, rfl, hlater, hle⟩

theorem ActiveSince.run (h : ActiveSince db.toTables sid time) (calls : List IngestCall) :
    ActiveSince (run svc db calls).toTables sid time := by
  induction calls generalizing db with
  | nil => exact h
  | cons c calls ih => exact ih h.ingest

/-! ### Repeats -/

/-- The second sequence is the first with repeats put in: each repeats the request of a
call that came before it and met no failure of the storage.  The repeat itself may meet
one, and it comes at another time. -/
inductive WithRepeats : List IngestCall → List IngestCall → List IngestCall → Prop
  | nil {done} : WithRepeats done [] []
  | keep {done c calls calls'} (h : WithRepeats (c :: done) calls calls') :
      WithRepeats done (c :: calls) (c :: calls')
  | again {done calls calls'} (c : IngestCall) {c' : IngestCall} (hdone : c ∈ done)
      (hexec : c.fault = none) (huser : c'.userID = c.userID) (hreq : c'.req = c.req)
      (h : WithRepeats done calls calls') : WithRepeats done calls (c' :: calls')

/-- Two stores have the same rows under every uuid, and sessions of the same origin. -/
structure Agree (t t' : Tables) : Prop where
  rows : ∀ sid u, firstRow sid u t'.messages = firstRow sid u t.messages
  origin : ∀ sid, t'.origin sid = t.origin sid

theorem Agree.refl (t : Tables) : Agree t t := ⟨fun _ _ => rfl, fun _ => rfl⟩

theorem owner_eq_origin (t : Tables) (sid : String) :
    t.owner sid = (t.origin sid).map Origin.userID := by
  unfold Tables.owner Tables.origin
  rw [Option.map_map]
  rfl

theorem Agree.owner {t t' : Tables} (h : Agree t t') (sid : String) :
    t'.owner sid = t.owner sid := by
  rw [owner_eq_origin, owner_eq_origin, h.origin]

def Settled (svc : Service) (userID : String) (req : IngestRequest) (t : Tables) : Prop :=
  ∀ msgs events, validate svc req = .ok (msgs, events) →
    ∃ owner, t.owner req.sessionID = some owner ∧
      (owner = userID → ∀ m ∈ msgs, (firstRow m.sessionID m.uuid t.messages).isSome)

variable {userID : String} {req : IngestRequest} {db' : DB}

theorem Settled.ingest (h : Settled svc userID req db.toTables) (c : IngestCall) :
    Settled svc userID req (ingest svc db c).1.toTables := by
  intro msgs events hv
  obtain ⟨owner, howner, hstored⟩ := h msgs events hv
  refine ⟨owner, owner_ingest howner, fun hsame m hm => ?_⟩
  rw [firstRow_ingest, isSome_or, hstored hsame m hm]
  rfl

/-- **A request is settled once it was executed.** -/
theorem settled_ingest (svc : Service) (db : DB) (hfault : c.fault = none) :
    Settled svc c.userID c.req (ingest svc db c).1.toTables := by
  intro msgs events hv
  rcases ingest_committed svc db c with ⟨hfail, hdb, -⟩ | ⟨msgs', events', hv', hmsgs, -, -, ht⟩
  · -- it was refused, so the session belongs to somebody else
    have hforeign : db.owner c.req.sessionID ≠ none ∧ db.owner c.req.sessionID ≠ some c.userID := by
      by_contra hno
      have hok := (ingest_ok_iff svc db c).mpr ⟨by rw [hv]; rfl, hfault, hno⟩
      rw [hok] at hfail
      cases hfail
    obtain ⟨owner, howner⟩ := ne_none_iff_exists'.mp hforeign.1
    refine ⟨owner, by rw [hdb, howner], fun hsame => ?_⟩
    rw [howner, hsame] at hforeign
    exact absurd rfl hforeign.2
  · rw [hv] at hv'
    obtain ⟨rfl, -⟩ := Prod.mk.inj (Except.ok.inj hv')
    refine ⟨(db.owner c.req.sessionID).getD c.userID, ?_, fun _ m hm => ?_⟩
    · rw [ht, owner_ingestTx, if_pos rfl]
    · rw [firstRow_ingest, hmsgs, isSome_or, isSome_firstRow hm, Bool.or_true]

/-- **A settled request adds nothing.** -/
theorem Settled.agree (h : Settled svc c.userID c.req db.toTables) :
    Agree db.toTables (Memory.ingest svc db c).1.toTables := by
  rcases ingest_committed svc db c with ⟨-, hdb, -⟩ | ⟨msgs, events, hv, hmsgs, -, howner, ht⟩
  · rw [hdb]
    exact Agree.refl _
  obtain ⟨owner, howner', hstored⟩ := h msgs events hv
  have hsame : owner = c.userID := by
    rcases howner with hnone | hown
    · rw [hnone] at howner'
      cases howner'
    · rw [hown] at howner'
      exact (some.inj howner').symm
  refine ⟨fun sid u => ?_, fun sid => ?_⟩
  · rw [firstRow_ingest, hmsgs]
    cases hrow : firstRow sid u msgs with
    | none => exact or_none
    | some r =>
      obtain ⟨m, hm, -, rfl, rfl⟩ := mem_of_firstRow hrow
      exact or_of_isSome (hstored hsame m hm)
  rw [ht, origin_ingestTx]
  split
  · next hsid =>
    subst hsid
    -- the session is there already, with an origin of its own
    rw [owner_eq_origin] at howner'
    obtain ⟨origin, horigin, -⟩ := map_eq_some_iff.mp howner'
    rw [horigin]
    rfl
  · rfl

theorem Agree.ingest (h : Agree db.toTables db'.toTables) (c : IngestCall) :
    Agree (Memory.ingest svc db c).1.toTables (Memory.ingest svc db' c).1.toTables := by
  have hok : (Memory.ingest svc db' c).2.toBool = (Memory.ingest svc db c).2.toBool := by
    rw [Bool.eq_iff_iff, ingest_ok_iff, ingest_ok_iff, h.owner]
  rcases ingest_committed svc db c with ⟨hfail, hdb, -⟩ | ⟨msgs, events, hv, hmsgs, hdone, -, ht⟩
  · rcases ingest_committed svc db' c with ⟨-, hdb', -⟩ | ⟨_, _, -, -, hdone', -, -⟩
    · rw [hdb, hdb']
      exact h
    · rw [hok, hfail] at hdone'
      cases hdone'
  rcases ingest_committed svc db' c with ⟨hfail', -, -⟩ | ⟨msgs', _, hv', hmsgs', -, -, ht'⟩
  · rw [hok, hdone] at hfail'
    cases hfail'
  rw [hv] at hv'
  obtain ⟨rfl, -⟩ := Prod.mk.inj (Except.ok.inj hv')
  refine ⟨fun sid u => ?_, fun sid => ?_⟩
  · rw [firstRow_ingest, firstRow_ingest, h.rows sid u, hmsgs, hmsgs']
  · rw [ht, ht', origin_ingestTx, origin_ingestTx, h.origin]

theorem WithRepeats.agree {done calls calls' : List IngestCall}
    (h : WithRepeats done calls calls') (hagree : Agree db.toTables db'.toTables)
    (hdone : ∀ c ∈ done, c.fault = none → Settled svc c.userID c.req db'.toTables) :
    Agree (run svc db calls).toTables (run svc db' calls').toTables := by
  induction h generalizing db db' with
  | nil => exact hagree
  | @keep done c calls calls' _ ih =>
    refine ih (hagree.ingest c) fun c0 hc0 hfault => ?_
    rcases mem_cons.mp hc0 with rfl | hc0
    · exact settled_ingest svc db' hfault
    · exact (hdone c0 hc0 hfault).ingest c
  | @again done calls calls' c c' hmem hexec huser hreq _ ih => ?_
  have hsettled : Settled svc c'.userID c'.req db'.toTables := by
    rw [huser, hreq]
    exact hdone c hmem hexec
  have hsame := hsettled.agree
  refine ih ⟨fun sid u => ?_, fun sid => ?_⟩ fun c0 hc0 hfault => ?_
  · rw [hsame.rows sid u, hagree.rows sid u]
  · rw [hsame.origin, hagree.origin]
  · exact (hdone c0 hc0 hfault).ingest c'

/-! ### Every sequence -/

def storedRows (t : Tables) : Set Message :=
  { r | ∃ m ∈ t.messages, m.uuid ≠ "" ∧ m.asIngested = r }

theorem mem_storedRows (db : DB) (r : Message) :
    r ∈ storedRows db.toTables ↔
      r.uuid ≠ "" ∧ firstRow r.sessionID r.uuid db.messages = some r := by
  constructor
  · rintro ⟨m, hm, hu, rfl⟩
    have hrow : firstRow m.sessionID m.uuid db.messages = some m.asIngested :=
      firstRow_of_mem db.ok hm hu
    exact ⟨hu, hrow⟩
  · rintro ⟨hu, hrow⟩
    obtain ⟨m, hm, hr, -, huuid⟩ := mem_of_firstRow hrow
    exact ⟨m, hm, huuid ▸ hu, hr⟩

/-- **Repeats are tolerated.**  Whatever repeats of executed requests are put into a
sequence of ingests, the stored messages with a uuid are the same in the end, and each is
what was there before or what the sequence brings first under its uuid.  The origin of a
session is that of its first ingest, the time of its last activity never goes back, and an
ingest that fails changes nothing. -/
theorem replay_tolerated (svc : Service) (db : DB) {calls calls' : List IngestCall}
    (h : WithRepeats [] calls calls') :
    storedRows (run svc db calls').toTables = storedRows (run svc db calls).toTables ∧
    (∀ m ∈ (run svc db calls').messages, m.uuid ≠ "" →
      m.asIngested ∈ storedRows db.toTables ∨
        firstRow m.sessionID m.uuid (ingested svc db calls) = some m.asIngested) ∧
    (∀ sid, (run svc db calls').origin sid =
      (db.origin sid).or ((firstIngest svc sid db calls).map fun c => (sessionOfCall c).origin)) ∧
    (∀ before after sid time, calls' = before ++ after →
      ActiveSince (run svc db before).toTables sid time →
        ActiveSince (run svc db calls').toTables sid time) ∧
    ∀ before c after e, calls' = before ++ c :: after →
      (ingest svc (run svc db before) c).2 = .error e →
        run svc db (before ++ [c]) = run svc db before := by
  have hagree : Agree (run svc db calls).toTables (run svc db calls').toTables :=
    h.agree (Agree.refl _) nofun
  refine ⟨?_, ?_, ?_, ?_, ?_⟩
  · ext r
    rw [mem_storedRows, mem_storedRows]
    refine and_congr_right fun hu => ?_
    rw [hagree.rows]
  · intro m hm hu
    have hrow := firstRow_of_mem (run svc db calls').ok hm hu
    rw [hagree.rows, firstRow_run, or_eq_some_iff] at hrow
    rcases hrow with hold | ⟨-, hnew⟩
    · exact .inl ((mem_storedRows db _).mpr ⟨hu, hold⟩)
    · exact .inr hnew
  · intro sid
    rw [hagree.origin, origin_run]
  · rintro before after sid time rfl hactive
    rw [run_append]
    exact hactive.run after
  · intro before c after e _ herr
    rw [run_concat]
    rcases ingest_committed svc (run svc db before) c with ⟨-, hdb, -⟩ | ⟨_, _, -, -, hok, -, -⟩
    · exact hdb
    rw [herr] at hok
    cases hok

def firstSend : IngestCall where
  userID := "u"
  req :=
    { sessionID := "s", projectDir := "/p", filePath := "/p/s.jsonl", fileMtime := 0
      bytesSeen := 0, platform := "claude-code"
      jsonl := Json.utf8 "\x7b\"type\":\"user\",\"uuid\":\"a\"\x7d\n" }

theorem replay_tolerated_resend :
    WithRepeats [] [firstSend] [firstSend, { firstSend with now := 7 }] ∧
      storedRows (run ⟨shippedRegistry fun _ => true, fun _ => none⟩ .empty
          [firstSend, { firstSend with now := 7 }]).toTables =
        storedRows (run ⟨shippedRegistry fun _ => true, fun _ => none⟩ .empty
          [firstSend]).toTables := by
  have hagain : WithRepeats [] [firstSend] [firstSend, { firstSend with now := 7 }] :=
    .keep (.again firstSend mem_cons_self rfl rfl rfl .nil)
  exact ⟨hagain, (replay_tolerated _ .empty hagain).1⟩

end ArcRelay.Memory
