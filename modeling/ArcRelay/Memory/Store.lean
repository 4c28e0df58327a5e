import ArcRelay.Lib.Table
import ArcRelay.Memory.Parser
import Mathlib.Data.List.Pairwise

/-!
# The transcript store

The relay keeps transcripts in two tables, one row for each session and one for each
message (`internal/store/memory_sessions.go`, `internal/store/memory_messages.go`),
and writes them in one place, `Service.Ingest` of `internal/memory/service.go`: check
the request, parse it, then in one transaction check who owns the session, insert or
update its row and insert the messages that are not there yet.

`DB` carries the constraints of the schema with the tables: the primary key of the
sessions, ids that only grow, `UNIQUE(session_id, uuid)` in which an absent uuid
equals no other, and messages that belong to a session.

Times are integers here; the source keeps them as floating-point seconds.  What
SQLite's full-text index and the regular expressions match, and how a timestamp is
read, are parameters.

* `ingest`, `Service.search`: the two services.
* `isolation`: users are kept apart over every sequence of ingests.
* `search_fitting_iff`: when every hit fits the filters.
-/

namespace ArcRelay.Memory

open Json Lines Watcher List Nat Table

/-! ### Tables -/

/-- A row of `memory_sessions`; an empty string stands for an absent text. -/
structure Session where
  sessionID : String
  userID : String
  projectDir : String
  filePath : String
  fileMtime : ℤ
  indexedAt : ℤ
  lastSeenAt : ℤ
  customTitle : String := ""
  platform : String
  bytesSeen : ℤ
  rawCwd : String := ""
  projectKey : String := ""
  isSubagent : Bool := false
  sourceParentSessionID : String := ""
  lastActivityAt : Option ℤ := none
  lastIngestedAt : Option ℤ := none
  clientCounters : Option Counters := none

/-- A row of `memory_messages`; an empty string stands for an absent uuid. -/
structure Message where
  id : ℕ := 0
  uuid : String
  sessionID : String
  parentUUID : String
  epoch : ℕ
  timestamp : String
  role : String
  content : Bytes
  platform : String
  deriving DecidableEq

/-- The two rows are one and the same message: equal session and equal uuid, where an
absent uuid equals no other. -/
def Message.SameKey (a b : Message) : Prop :=
  a.uuid ≠ "" ∧ a.sessionID = b.sessionID ∧ a.uuid = b.uuid

instance (a b : Message) : Decidable (a.SameKey b) := inferInstanceAs (Decidable (_ ∧ _ ∧ _))

structure Tables where
  sessions : List Session := []
  messages : List Message := []
  nextID : ℕ := 1

namespace Tables

def session (t : Tables) (sessionID : String) : Option Session :=
  Table.find Session.sessionID sessionID t.sessions

def owner (t : Tables) (sessionID : String) : Option String :=
  (t.session sessionID).map (·.userID)

/-- The constraints of the schema. -/
structure Ok (t : Tables) : Prop where
  sessionKey : (t.sessions.map (·.sessionID)).Nodup
  ids : t.messages.Pairwise fun a b => a.id < b.id
  fresh : ∀ m ∈ t.messages, m.id < t.nextID
  uuidKey : t.messages.Pairwise fun a b => ¬ a.SameKey b
  reference : ∀ m ∈ t.messages, (t.session m.sessionID).isSome

end Tables

/-- The store: tables that meet the constraints. -/
structure DB extends Tables where
  ok : toTables.Ok

theorem Message.SameKey.symm {a b : Message} (h : a.SameKey b) : b.SameKey a :=
  ⟨h.2.2 ▸ h.1, h.2.1.symm, h.2.2.symm⟩

variable {t : Tables} {msgs hits : List Message} {db : DB} {u userID : String} {m : Message}

theorem Tables.Ok.unique (h : t.Ok) {a b : Message} (ha : a ∈ t.messages) (hb : b ∈ t.messages)
    (hkey : a.SameKey b) : a = b := by
  by_contra hne
  have hsymm : Std.Symm fun a b : Message => ¬ a.SameKey b := ⟨fun _ _ h h' => h h'.symm⟩
  exact h.uuidKey.forall ha hb hne hkey

def DB.empty : DB where
  ok := ⟨by simp, by simp, by simp, by simp, by simp⟩

/-! ### Writing -/

namespace Tables

/-- `INSERT ... ON CONFLICT(session_id, uuid) DO NOTHING`; returns whether the row was
stored. -/
def insertMessage (t : Tables) (m : Message) : Tables × Bool :=
  if t.messages.any fun a => a.SameKey m then (t, false)
  else ({ t with messages := t.messages ++ [{ m with id := t.nextID }], nextID := t.nextID + 1 },
    true)

def bulkInsert (t : Tables) : List Message → Tables × ℕ
  | [] => (t, 0)
  | m :: ms =>
    let (t, stored) := t.insertMessage m
    let (t, n) := t.bulkInsert ms
    (t, n + if stored then 1 else 0)

/-- What a later ingest may change in the row of a session. -/
def refresh (new old : Session) : Session :=
  { old with
    fileMtime := new.fileMtime
    lastSeenAt := new.lastSeenAt
    bytesSeen := new.bytesSeen
    customTitle := if new.customTitle = "" then old.customTitle else new.customTitle }

def upsertSession (t : Tables) (s : Session) : Tables :=
  { t with sessions := Table.upsert Session.sessionID (refresh s) s t.sessions }

/-- The receipt of an ingest in the row of its session; the time of the last activity
does not go back. -/
def stamp (ingestedAt : ℤ) (activityAt : Option ℤ) (counters : Option Counters) (s : Session) :
    Session :=
  { s with
    lastIngestedAt := some ingestedAt
    lastActivityAt :=
      match activityAt with
      | none => s.lastActivityAt
      | some newest => some (max (s.lastActivityAt.getD 0) newest)
    clientCounters := counters.or s.clientCounters }

def recordIngest (t : Tables) (sessionID : String) (ingestedAt : ℤ) (activityAt : Option ℤ)
    (counters : Option Counters) : Tables :=
  { t with
    sessions :=
      Table.modify Session.sessionID sessionID (stamp ingestedAt activityAt counters) t.sessions }

end Tables

/-- The body of an ingest as the relay decodes it. -/
structure IngestRequest where
  sessionID : String
  projectDir : String
  filePath : String
  fileMtime : ℤ
  bytesSeen : ℤ
  platform : String
  jsonl : Bytes
  rawCwd : String := ""
  projectKey : String := ""
  isSubagent : Bool := false
  sourceParentSessionID : String := ""
  clientCounters : Option Counters := none

def IngestRequest.ofWatcher (req : Watcher.IngestRequest) : IngestRequest where
  sessionID := req.sessionID
  projectDir := req.projectDir
  filePath := req.filePath
  fileMtime := req.fileMtime
  bytesSeen := req.bytesSeen
  platform := req.platform
  jsonl := req.jsonl
  rawCwd := req.rawCwd
  clientCounters := if req.clientCounters = [] then none else some req.clientCounters

inductive Fault where
  | begin | owner | upsert | insert | record | commit
  deriving DecidableEq

inductive Refusal where
  | sessionIDRequired
  | platformRequired
  | unknownPlatform
  | parse
  /-- `ErrForeignSession`: the session belongs to another user. -/
  | foreignSession
  | storage (at_ : Fault)
  deriving DecidableEq

structure IngestAnswer where
  messagesAdded : ℕ
  eventsAdded : ℕ
  bytesSeen : ℤ
  deriving DecidableEq

abbrev Parser := Bytes → Option (List ParsedMessage × List CompactEvent)

structure Service where
  registry : String → Option Parser
  parseTimestamp : String → Option ℤ

def shippedRegistry (isPrint : Char → Bool) (platform : String) : Option Parser :=
  if platform = "claude-code" then some (parseClaudeCodeJSONL isPrint) else none

/-- One call of `Service.Ingest`: the caller, the request, the clock, and the storage
failure it meets, if any. -/
structure IngestCall where
  userID : String
  req : IngestRequest
  now : ℤ := 0
  fault : Option Fault := none

def newestTimestamp (parseTimestamp : String → Option ℤ) (msgs : List Message) : Option ℤ :=
  (msgs.filterMap fun m => parseTimestamp m.timestamp).max?

def messageOf (req : IngestRequest) (m : ParsedMessage) : Message where
  uuid := m.uuid
  sessionID := req.sessionID
  parentUUID := m.parentUUID
  epoch := m.epoch
  timestamp := m.timestamp
  role := m.role
  content := m.content
  platform := req.platform

def sessionOfCall (c : IngestCall) : Session where
  sessionID := c.req.sessionID
  userID := c.userID
  projectDir := c.req.projectDir
  filePath := c.req.filePath
  fileMtime := c.req.fileMtime
  indexedAt := c.req.fileMtime
  lastSeenAt := c.req.fileMtime
  platform := c.req.platform
  bytesSeen := c.req.bytesSeen
  rawCwd := c.req.rawCwd
  projectKey := c.req.projectKey
  isSubagent := c.req.isSubagent
  sourceParentSessionID := c.req.sourceParentSessionID

/-- What is checked before the transaction: the fields, the platform, the transcript. -/
def validate (svc : Service) (req : IngestRequest) :
    Except Refusal (List Message × List CompactEvent) :=
  if req.sessionID = "" then .error .sessionIDRequired
  else if req.platform = "" then .error .platformRequired
  else
    match svc.registry req.platform with
    | none => .error .unknownPlatform
    | some parser =>
      match parser req.jsonl with
      | none => .error .parse
      | some (msgs, events) => .ok (msgs.map (messageOf req), events)

def ingestTx (svc : Service) (c : IngestCall) (msgs : List Message) (t : Tables) : Tables × ℕ :=
  let (t, stored) := (t.upsertSession (sessionOfCall c)).bulkInsert msgs
  (t.recordIngest c.req.sessionID c.now (newestTimestamp svc.parseTimestamp msgs)
    c.req.clientCounters, stored)

/-! ### The writes keep the constraints -/

variable {svc : Service} {c : IngestCall}

namespace Tables

variable {sid : String}

theorem session_upsertSession (s : Session) :
    (t.upsertSession s).session sid =
      if sid = s.sessionID then some (((t.session sid).map (refresh s)).getD s)
      else t.session sid :=
  find_upsert fun _ h => h

theorem session_recordIngest (sessionID : String) (ingestedAt : ℤ) (activityAt : Option ℤ)
    (counters : Option Counters) :
    ((t.recordIngest sessionID ingestedAt activityAt counters).session sid).map (·.userID) =
      (t.session sid).map (·.userID) := by
  have hfind : (t.recordIngest sessionID ingestedAt activityAt counters).session sid =
      if sid = sessionID then (t.session sessionID).map (stamp ingestedAt activityAt counters)
      else t.session sid :=
    find_modify fun _ h => h
  rw [hfind]
  split
  · next h =>
    subst h
    cases t.session sid <;> rfl
  · rfl

theorem upsertSession_ok (h : t.Ok) (s : Session) : (t.upsertSession s).Ok := by
  refine ⟨nodup_upsert (fun _ h => h) h.sessionKey, h.ids, h.fresh, h.uuidKey, ?_⟩
  intro m hm
  rw [session_upsertSession]
  split
  · rfl
  · exact h.reference m hm

theorem recordIngest_ok (h : t.Ok) (sessionID : String) (ingestedAt : ℤ) (activityAt : Option ℤ)
    (counters : Option Counters) :
    (t.recordIngest sessionID ingestedAt activityAt counters).Ok := by
  refine ⟨nodup_modify (fun _ h => h) h.sessionKey, h.ids, h.fresh, h.uuidKey, ?_⟩
  intro m hm
  have := h.reference m hm
  rw [← Option.isSome_map (f := Session.userID)] at this ⊢
  rwa [session_recordIngest]

theorem insertMessage_ok (h : t.Ok) (hm : (t.session m.sessionID).isSome) :
    (t.insertMessage m).1.Ok := by
  unfold insertMessage
  split
  · exact h
  next hnew =>
  have hnew' : ∀ a ∈ t.messages, ¬ a.SameKey m := by simpa using hnew
  refine ⟨h.sessionKey, ?_, ?_, ?_, ?_⟩
  · refine pairwise_append.mpr ⟨h.ids, pairwise_singleton _ _, fun a ha b hb => ?_⟩
    rw [mem_singleton] at hb
    subst hb
    exact h.fresh a ha
  · intro a ha
    rcases mem_append.mp ha with ha | ha
    · exact lt_succ_of_lt (h.fresh a ha)
    rw [mem_singleton] at ha
    subst ha
    exact lt_succ_self _
  · refine pairwise_append.mpr ⟨h.uuidKey, pairwise_singleton _ _, fun a ha b hb => ?_⟩
    rw [mem_singleton] at hb
    subst hb
    exact hnew' a ha
  · intro a ha
    rcases mem_append.mp ha with ha | ha
    · exact h.reference a ha
    rw [mem_singleton] at ha
    subst ha
    exact hm

@[simp] theorem sessions_insertMessage (t : Tables) (m : Message) :
    (t.insertMessage m).1.sessions = t.sessions := by
  unfold insertMessage
  split <;> rfl

@[simp] theorem sessions_bulkInsert (t : Tables) (ms : List Message) :
    (t.bulkInsert ms).1.sessions = t.sessions := by
  induction ms generalizing t with
  | nil => rfl
  | cons m ms ih =>
    simp only [bulkInsert]
    rw [ih, sessions_insertMessage]

theorem bulkInsert_ok (h : t.Ok) {ms : List Message}
    (hms : ∀ m ∈ ms, (t.session m.sessionID).isSome) : (t.bulkInsert ms).1.Ok := by
  induction ms generalizing t with
  | nil => exact h
  | cons m ms ih => ?_
  have hrest : ∀ a ∈ ms, ((t.insertMessage m).1.session a.sessionID).isSome := by
    intro a ha
    rw [session, sessions_insertMessage]
    exact hms a (mem_cons_of_mem _ ha)
  exact ih (insertMessage_ok h (hms m mem_cons_self)) hrest

theorem messages_insertMessage (t : Tables) (m : Message) :
    t.messages <+: (t.insertMessage m).1.messages ∧
      ∀ a ∈ (t.insertMessage m).1.messages, a ∈ t.messages ∨ a.sessionID = m.sessionID := by
  unfold insertMessage
  split
  · exact ⟨prefix_refl _, fun a ha => .inl ha⟩
  refine ⟨prefix_append _ _, fun a ha => ?_⟩
  rcases mem_append.mp ha with ha | ha
  · exact .inl ha
  rw [mem_singleton] at ha
  subst ha
  exact .inr rfl

theorem messages_bulkInsert (t : Tables) (ms : List Message) :
    t.messages <+: (t.bulkInsert ms).1.messages ∧
      ∀ a ∈ (t.bulkInsert ms).1.messages, a ∈ t.messages ∨ ∃ m ∈ ms, a.sessionID = m.sessionID := by
  induction ms generalizing t with
  | nil => exact ⟨prefix_refl _, fun a ha => .inl ha⟩
  | cons m ms ih => ?_
  obtain ⟨hpre, hmem⟩ := messages_insertMessage t m
  obtain ⟨hpre', hmem'⟩ := ih (t.insertMessage m).1
  refine ⟨hpre.trans hpre', fun a ha => ?_⟩
  rcases hmem' a ha with ha | ⟨b, hb, heq⟩
  · rcases hmem a ha with ha | heq
    · exact .inl ha
    · exact .inr ⟨m, mem_cons_self, heq⟩
  · exact .inr ⟨b, mem_cons_of_mem _ hb, heq⟩

theorem stored_insertMessage (t : Tables) (m : Message) :
    ∃ a ∈ (t.insertMessage m).1.messages, a.sessionID = m.sessionID ∧ a.uuid = m.uuid := by
  unfold insertMessage
  split
  · next h =>
    obtain ⟨a, ha, hkey⟩ := any_eq_true.mp h
    simp only [decide_eq_true_eq] at hkey
    exact ⟨a, ha, hkey.2⟩
  · exact ⟨_, mem_append_right _ (mem_singleton_self _), rfl, rfl⟩

theorem new_insertMessage {a : Message} (ha : a ∈ (t.insertMessage m).1.messages)
    (hnew : a ∉ t.messages) : a.id = t.nextID ∧ a.sessionID = m.sessionID ∧ a.uuid = m.uuid := by
  unfold insertMessage at ha
  split at ha
  · exact absurd ha hnew
  rcases mem_append.mp ha with ha | ha
  · exact absurd ha hnew
  rw [mem_singleton] at ha
  subst ha
  exact ⟨rfl, rfl, rfl⟩

theorem fresh_insertMessage (h : ∀ m ∈ t.messages, m.id < t.nextID) (m : Message) :
    t.nextID ≤ (t.insertMessage m).1.nextID ∧
      ∀ a ∈ (t.insertMessage m).1.messages, a.id < (t.insertMessage m).1.nextID := by
  unfold insertMessage
  split
  · exact ⟨le_rfl, h⟩
  refine ⟨le_succ _, fun a ha => ?_⟩
  rcases mem_append.mp ha with ha | ha
  · exact lt_succ_of_lt (h a ha)
  rw [mem_singleton] at ha
  subst ha
  exact lt_succ_self _

theorem nextID_le_bulkInsert (t : Tables) (ms : List Message) :
    t.nextID ≤ (t.bulkInsert ms).1.nextID := by
  induction ms generalizing t with
  | nil => exact le_rfl
  | cons m ms ih => ?_
  have hfirst : t.nextID ≤ (t.insertMessage m).1.nextID := by
    unfold insertMessage
    split
    · exact le_rfl
    · exact le_succ _
  exact hfirst.trans (ih _)

theorem stored_bulkInsert (t : Tables) (ms : List Message) :
    ∀ m ∈ ms, ∃ a ∈ (t.bulkInsert ms).1.messages, a.sessionID = m.sessionID ∧ a.uuid = m.uuid := by
  induction ms generalizing t with
  | nil => simp
  | cons m ms ih => ?_
  intro a ha
  rcases mem_cons.mp ha with rfl | ha
  · obtain ⟨b, hb, hkey⟩ := t.stored_insertMessage a
    exact ⟨b, ((t.insertMessage a).1.messages_bulkInsert ms).1.mem hb, hkey⟩
  · exact ih (t.insertMessage m).1 a ha

/-- **Rows are stored in the order of the messages**: a row that is new stands for one of
the messages, has a fresh id, and every message in front of that one is stored with a
smaller id. -/
theorem new_bulkInsert {ms : List Message} (h : ∀ m ∈ t.messages, m.id < t.nextID) {a : Message}
    (ha : a ∈ (t.bulkInsert ms).1.messages) (hnew : a ∉ t.messages) :
    t.nextID ≤ a.id ∧ ∃ ms1 m ms2, ms = ms1 ++ m :: ms2 ∧ a.sessionID = m.sessionID ∧
      a.uuid = m.uuid ∧ ∀ m' ∈ ms1, ∃ b ∈ (t.bulkInsert ms).1.messages,
        b.sessionID = m'.sessionID ∧ b.uuid = m'.uuid ∧ b.id < a.id := by
  induction ms generalizing t with
  | nil => exact absurd ha hnew
  | cons m ms ih => ?_
  obtain ⟨hle, hfresh⟩ := fresh_insertMessage h m
  by_cases hfirst : a ∈ (t.insertMessage m).1.messages
  · obtain ⟨hid, hsid, huuid⟩ := new_insertMessage hfirst hnew
    exact ⟨hid ▸ le_rfl, [], m, ms, rfl, hsid, huuid, by simp⟩
  obtain ⟨hge, ms1, m1, ms2, rfl, hsid, huuid, hbefore⟩ := ih hfresh ha hfirst
  refine ⟨hle.trans hge, m :: ms1, m1, ms2, rfl, hsid, huuid, fun m' hm' => ?_⟩
  rcases mem_cons.mp hm' with rfl | hm'
  · obtain ⟨b, hb, hkey⟩ := t.stored_insertMessage m'
    refine ⟨b, ((t.insertMessage m').1.messages_bulkInsert _).1.mem hb, hkey.1, hkey.2, ?_⟩
    exact lt_of_lt_of_le (hfresh b hb) hge
  · exact hbefore m' hm'

end Tables

/-- **The transaction of an ingest keeps the constraints of the schema.** -/
theorem ingestTx_ok (h : t.Ok) (hmsgs : ∀ m ∈ msgs, m.sessionID = c.req.sessionID) :
    (ingestTx svc c msgs t).1.Ok := by
  refine Tables.recordIngest_ok (Tables.bulkInsert_ok (Tables.upsertSession_ok h _) ?_) _ _ _ _
  intro m hm
  have hsession : m.sessionID = (sessionOfCall c).sessionID := hmsgs m hm
  rw [Tables.session_upsertSession, if_pos hsession]
  rfl

theorem sessionID_of_validate {req : IngestRequest} {events : List CompactEvent}
    (h : validate svc req = .ok (msgs, events)) : ∀ m ∈ msgs, m.sessionID = req.sessionID := by
  unfold validate at h
  split at h
  · simp at h
  split at h
  · simp at h
  split at h
  · simp at h
  split at h
  · simp at h
  obtain ⟨rfl, -⟩ := Prod.mk.inj (Except.ok.inj h)
  intro m hm
  obtain ⟨p, -, rfl⟩ := mem_map.mp hm
  rfl

/-- `Service.Ingest`.  The transaction commits as a whole or leaves the store as it
was. -/
def ingest (svc : Service) (db : DB) (c : IngestCall) : DB × Except Refusal IngestAnswer :=
  match hv : validate svc c.req with
  | .error e => (db, .error e)
  | .ok (msgs, events) =>
    if c.fault = some .begin then (db, .error (.storage .begin))
    else if c.fault = some .owner then (db, .error (.storage .owner))
    else if db.owner c.req.sessionID ≠ none ∧ db.owner c.req.sessionID ≠ some c.userID then
      (db, .error .foreignSession)
    else
      match c.fault with
      | some f => (db, .error (.storage f))
      | none =>
        let tx := ingestTx svc c msgs db.toTables
        (⟨tx.1, ingestTx_ok db.ok (sessionID_of_validate hv)⟩,
          .ok ⟨tx.2, events.length, c.req.bytesSeen⟩)

def run (svc : Service) (db : DB) (calls : List IngestCall) : DB :=
  calls.foldl (fun db c => (ingest svc db c).1) db

@[simp] theorem run_nil (svc : Service) (db : DB) : run svc db [] = db := rfl

theorem run_append (svc : Service) (db : DB) (calls calls' : List IngestCall) :
    run svc db (calls ++ calls') = run svc (run svc db calls) calls' := foldl_append

theorem ingest_cases (svc : Service) (db : DB) (c : IngestCall) :
    (∃ e, ingest svc db c = (db, .error e)) ∨
      ∃ msgs events, validate svc c.req = .ok (msgs, events) ∧
        (db.owner c.req.sessionID = none ∨ db.owner c.req.sessionID = some c.userID) ∧
        (ingest svc db c).1.toTables = (ingestTx svc c msgs db.toTables).1 ∧
        (ingest svc db c).2 =
          .ok ⟨(ingestTx svc c msgs db.toTables).2, events.length, c.req.bytesSeen⟩ := by
  unfold ingest
  split
  · next e _ => exact .inl ⟨e, rfl⟩
  next msgs events hv =>
  split
  · exact .inl ⟨_, rfl⟩
  split
  · exact .inl ⟨_, rfl⟩
  split
  · exact .inl ⟨_, rfl⟩
  next howner =>
  split
  · next f _ => exact .inl ⟨_, rfl⟩
  refine .inr ⟨msgs, events, hv, ?_, rfl, rfl⟩
  by_contra hne
  push Not at hne
  exact howner hne

/-- **What an ingest does to the owner of a session**: the first one makes the caller the
owner, and nothing changes it afterwards. -/
theorem owner_ingestTx (svc : Service) (c : IngestCall) (msgs : List Message) (t : Tables)
    (sid : String) :
    (ingestTx svc c msgs t).1.owner sid =
      if sid = c.req.sessionID then some ((t.owner sid).getD c.userID) else t.owner sid := by
  simp only [ingestTx, Tables.owner, Tables.session_recordIngest]
  have hbulk : ((t.upsertSession (sessionOfCall c)).bulkInsert msgs).1.session sid =
      (t.upsertSession (sessionOfCall c)).session sid := by
    unfold Tables.session
    rw [Tables.sessions_bulkInsert]
  rw [hbulk, Tables.session_upsertSession]
  by_cases hsid : sid = c.req.sessionID
  · have hsid' : sid = (sessionOfCall c).sessionID := hsid
    rw [if_pos hsid, if_pos hsid']
    cases t.session sid <;> rfl
  · have hsid' : sid ≠ (sessionOfCall c).sessionID := hsid
    rw [if_neg hsid, if_neg hsid']

theorem messages_ingestTx (hmsgs : ∀ m ∈ msgs, m.sessionID = c.req.sessionID) :
    t.messages <+: (ingestTx svc c msgs t).1.messages ∧
      ∀ m ∈ (ingestTx svc c msgs t).1.messages, m ∈ t.messages ∨ m.sessionID = c.req.sessionID := by
  obtain ⟨hpre, hmem⟩ := (t.upsertSession (sessionOfCall c)).messages_bulkInsert msgs
  refine ⟨hpre, fun m hm => ?_⟩
  rcases hmem m hm with hm | ⟨a, ha, heq⟩
  · exact .inl hm
  · exact .inr (heq.trans (hmsgs a ha))

theorem owner_ingest {sid : String} (h : db.owner sid = some u) :
    (ingest svc db c).1.owner sid = some u := by
  rcases ingest_cases svc db c with ⟨e, he⟩ | ⟨msgs, events, -, -, htables, -⟩
  · rw [he]
    exact h
  · rw [htables, owner_ingestTx, h]
    split <;> rfl

theorem run_concat (svc : Service) (db : DB) (calls : List IngestCall) (c : IngestCall) :
    run svc db (calls ++ [c]) = (ingest svc (run svc db calls) c).1 := by
  rw [run_append]
  rfl

theorem owner_run {sid : String} (h : db.owner sid = some u) (calls : List IngestCall) :
    (run svc db calls).owner sid = some u := by
  induction calls generalizing db with
  | nil => exact h
  | cons c calls ih => exact ih (owner_ingest h)

/-! ### Reading -/

structure SearchOpts where
  limit : ℤ := 0
  projectDir : String := ""
  sessionID : String := ""
  role : String := ""
  sinceEpoch : ℤ := 0

/-- The full-text index: which rows a query matches (`none` for a query it cannot read),
and the rank of a row among all of them. -/
structure FullText where
  matches_ : String → Option (Message → Bool)
  bm25 : List Message → String → Message → ℤ

/-- The filters on the joined row of a message and its session that both searches have. -/
def inScope (t : Tables) (userID : String) (opts : SearchOpts) (m : Message) : Bool :=
  (t.session m.sessionID).any (fun s =>
    s.userID = userID ∧ (opts.projectDir = "" ∨ s.projectDir = opts.projectDir)) &&
  (opts.sessionID = "" ∨ m.sessionID = opts.sessionID) &&
  (opts.role = "" ∨ m.role = opts.role)

def clampLimit (limit : ℤ) (max default : ℕ) : ℕ :=
  if limit ≤ 0 ∨ (max : ℤ) < limit then default else limit.toNat

/-- `MessageStore.Search`: the best matches, best first. -/
def search (fts : FullText) (t : Tables) (userID query : String) (opts : SearchOpts) :
    Option (List Message) :=
  (fts.matches_ query).map fun isMatch =>
    let hits := t.messages.filter fun m =>
      inScope t userID opts m && isMatch m && (opts.sinceEpoch ≤ 0 ∨ opts.sinceEpoch ≤ m.epoch)
    (hits.mergeSort fun a b => fts.bm25 t.messages query a ≤ fts.bm25 t.messages query b).take
      (clampLimit opts.limit 200 25)

/-- The newest rows in scope, newest first. -/
def newestRows (t : Tables) (userID : String) (opts : SearchOpts) : List Message :=
  ((t.messages.filter (inScope t userID opts)).reverse).take 5000

/-- `MessageStore.SearchRegex`: the newest matches among the newest rows. -/
def searchRegex (compile : String → Option (Bytes → Bool)) (t : Tables) (userID pattern : String)
    (opts : SearchOpts) : Option (List Message) :=
  (compile pattern).map fun re =>
    ((newestRows t userID opts).filter fun m => re m.content).take (clampLimit opts.limit 500 100)

/-- Characters that send a query to the regular expressions, unless it is quoted. -/
def hasRegexMeta (q : String) : Bool :=
  let l := q.toList
  if 2 ≤ l.length ∧ l.head? = some '"' ∧ l.getLast? = some '"' then false
  else l.any fun c =>
    c ∈ ['\\', '.', '*', '+', '?', '[', ']', '\x7b', '\x7d', '(', ')', '|', '^', '$']

def asPhrase (q : String) : String :=
  String.ofList (['"'] ++ (q.toList.flatMap fun c => if c = '"' then ['"', '"'] else [c]) ++ ['"'])

/-- `Service.Search`: the index with the query as it is, then as a phrase, then the regular
expressions. -/
def Service.search (fts : FullText) (compile : String → Option (Bytes → Bool)) (t : Tables)
    (userID query : String) (opts : SearchOpts) : Option (List Message) :=
  if hasRegexMeta query then searchRegex compile t userID query opts
  else
    match Memory.search fts t userID query opts with
    | some hits => some hits
    | none =>
      match Memory.search fts t userID (asPhrase query) opts with
      | some hits => some hits
      | none => searchRegex compile t userID query opts

/-- `SessionExtract`: the messages of a session of the caller's own; a session of another
user is as good as missing. -/
def sessionExtract (t : Tables) (userID sessionID : String) (fromEpoch : ℤ) :
    Option (List Message) :=
  match t.session sessionID with
  | none => none
  | some s =>
    if s.userID ≠ userID then none
    else some (t.messages.filter fun m => m.sessionID = sessionID ∧ fromEpoch ≤ m.epoch)

variable {opts : SearchOpts} {fts : FullText} {compile : String → Option (Bytes → Bool)}

def Visible (t : Tables) (userID : String) (m : Message) : Prop :=
  m ∈ t.messages ∧ t.owner m.sessionID = some userID

structure Fits (t : Tables) (userID : String) (opts : SearchOpts) (m : Message) : Prop where
  stored : m ∈ t.messages
  session : ∃ s, t.session m.sessionID = some s ∧ s.userID = userID ∧
    (opts.projectDir ≠ "" → s.projectDir = opts.projectDir)
  sessionID : opts.sessionID ≠ "" → m.sessionID = opts.sessionID
  role : opts.role ≠ "" → m.role = opts.role

structure Fitting (t : Tables) (userID : String) (opts : SearchOpts) (hits : List Message) :
    Prop where
  fits : ∀ m ∈ hits, Fits t userID opts m
  atMost : 1 ≤ opts.limit → opts.limit ≤ 200 → hits.length ≤ opts.limit.toNat

theorem Fits.visible (h : Fits t userID opts m) : Visible t userID m := by
  obtain ⟨s, hs, huser, -⟩ := h.session
  refine ⟨h.stored, ?_⟩
  rw [Tables.owner, hs, Option.map_some, huser]

theorem fits_of_inScope (hm : m ∈ t.messages) (h : inScope t userID opts m = true) :
    Fits t userID opts m := by
  simp only [inScope, Bool.and_eq_true, decide_eq_true_eq] at h
  obtain ⟨⟨hsession, hid⟩, hrole⟩ := h
  obtain ⟨s, hs, huser⟩ := (Option.any_eq_true _ _).mp hsession
  simp only [decide_eq_true_eq] at huser
  exact ⟨hm, ⟨s, hs, huser.1, huser.2.resolve_left⟩, hid.resolve_left, hrole.resolve_left⟩

theorem length_take_clampLimit (l : List Message) {limit : ℤ} {max default : ℕ} (h : 1 ≤ limit)
    (hmax : limit ≤ max) : (l.take (clampLimit limit max default)).length ≤ limit.toNat := by
  unfold clampLimit
  rw [if_neg (by omega)]
  exact List.length_take_le _ _

theorem fits_of_search {query : String} (h : search fts t userID query opts = some hits)
    (hm : m ∈ hits) :
    Fits t userID opts m ∧ (0 < opts.sinceEpoch → opts.sinceEpoch ≤ m.epoch) := by
  obtain ⟨isMatch, -, rfl⟩ := Option.map_eq_some_iff.mp h
  have hm' := List.mem_mergeSort.mp (List.mem_of_mem_take hm)
  obtain ⟨hmem, hcond⟩ := List.mem_filter.mp hm'
  simp only [Bool.and_eq_true, decide_eq_true_eq] at hcond
  exact ⟨fits_of_inScope hmem hcond.1.1, fun hpos => hcond.2.resolve_left (by omega)⟩

theorem fitting_search {query : String} (h : search fts t userID query opts = some hits) :
    Fitting t userID opts hits := by
  refine ⟨fun m hm => (fits_of_search h hm).1, ?_⟩
  obtain ⟨isMatch, -, rfl⟩ := Option.map_eq_some_iff.mp h
  exact length_take_clampLimit _

theorem fitting_searchRegex {pattern : String}
    (h : searchRegex compile t userID pattern opts = some hits) : Fitting t userID opts hits := by
  obtain ⟨re, -, rfl⟩ := Option.map_eq_some_iff.mp h
  refine ⟨fun m hm => ?_, fun hlow hhigh => length_take_clampLimit _ hlow (by omega)⟩
  have hrow := (List.mem_filter.mp (List.mem_of_mem_take hm)).1
  obtain ⟨hmem, hcond⟩ := List.mem_filter.mp (List.mem_reverse.mp (List.mem_of_mem_take hrow))
  exact fits_of_inScope hmem hcond

/-- The index answers: the query has no metacharacters, and the index can read it as it is or
as a phrase. -/
def Indexed (fts : FullText) (query : String) : Prop :=
  hasRegexMeta query = false ∧
    ((fts.matches_ query).isSome ∨ (fts.matches_ (asPhrase query)).isSome)

/-- The regular expression finds a message before the epoch asked for, with fewer newer matches
than may be returned. -/
def FindsEarly (re : Bytes → Bool) (t : Tables) (userID : String) (opts : SearchOpts) : Prop :=
  ∃ newer m older, newestRows t userID opts = newer ++ m :: older ∧ re m.content = true ∧
    (newer.countP fun m => re m.content) < clampLimit opts.limit 500 100 ∧
    (m.epoch : ℤ) < opts.sinceEpoch

theorem serviceSearch_of_indexed {query : String} (h : Indexed fts query) :
    ∃ q, Service.search fts compile t userID query opts = search fts t userID q opts := by
  unfold Service.search
  rw [if_neg (by simp [h.1])]
  cases hraw : search fts t userID query opts with
  | some hits => exact ⟨query, hraw.symm⟩
  | none => ?_
  refine ⟨asPhrase query, ?_⟩
  cases hphrase : search fts t userID (asPhrase query) opts with
  | some hits => rfl
  | none =>
    simp only [search, Option.map_eq_none_iff] at hraw hphrase
    simpa [hraw, hphrase] using h.2

theorem serviceSearch_of_not_indexed {query : String} (h : ¬ Indexed fts query) :
    Service.search fts compile t userID query opts = searchRegex compile t userID query opts := by
  unfold Service.search
  by_cases hmeta : hasRegexMeta query = true
  · rw [if_pos hmeta]
  have hraw : fts.matches_ query = none ∧ fts.matches_ (asPhrase query) = none := by
    simpa [Indexed, hmeta] using h
  simp [search, hmeta, hraw]

theorem mem_take_filter {p : Message → Bool} {l : List Message} {n : ℕ} :
    m ∈ (l.filter p).take n ↔
      ∃ before after, l = before ++ m :: after ∧ p m = true ∧ before.countP p < n := by
  induction l generalizing n with
  | nil => simp
  | cons a l ih => ?_
  -- the first row is the message, or stands before it
  have hsplit : (∃ before after, a :: l = before ++ m :: after ∧ p m = true ∧
      before.countP p < n) ↔ (a = m ∧ p m = true ∧ 0 < n) ∨
        ∃ before after, l = before ++ m :: after ∧ p m = true ∧ (a :: before).countP p < n := by
    constructor
    · rintro ⟨before, after, heq, hp, hn⟩
      cases before with
      | nil => exact .inl ⟨(cons.inj heq).1, hp, hn⟩
      | cons b before =>
        obtain ⟨rfl, htail⟩ := cons.inj heq
        exact .inr ⟨before, after, htail, hp, hn⟩
    · rintro (⟨rfl, hp, hn⟩ | ⟨before, after, rfl, hp, hn⟩)
      · exact ⟨[], l, rfl, hp, hn⟩
      · exact ⟨a :: before, after, rfl, hp, hn⟩
  rw [hsplit]
  by_cases ha : p a = true
  · cases n with
    | zero => simp
    | succ n =>
      simp only [filter_cons_of_pos ha, take_succ_cons, mem_cons, ih, countP_cons_of_pos ha,
        succ_lt_succ_iff, zero_lt_succ, and_true]
      grind
  · rw [filter_cons_of_neg ha, ih]
    simp only [countP_cons_of_neg ha]
    grind

/-- **Every hit fits and no more are returned than asked for**, whichever search answers, if and
only if the index answers or the regular expression finds nothing before the epoch. -/
theorem search_fitting_iff (fts : FullText) (compile : String → Option (Bytes → Bool))
    (t : Tables) (userID query : String) (opts : SearchOpts) :
    (∀ hits, Service.search fts compile t userID query opts = some hits →
      Fitting t userID opts hits ∧
        ∀ m ∈ hits, 0 < opts.sinceEpoch → opts.sinceEpoch ≤ m.epoch) ↔
      Indexed fts query ∨ ∀ re, compile query = some re → ¬ FindsEarly re t userID opts := by
  by_cases hidx : Indexed fts query
  · obtain ⟨q, hq⟩ : ∃ q, Service.search fts compile t userID query opts =
        search fts t userID q opts := serviceSearch_of_indexed hidx
    rw [hq]
    exact iff_of_true (fun hits h => ⟨fitting_search h, fun m hm => (fits_of_search h hm).2⟩)
      (.inl hidx)
  rw [serviceSearch_of_not_indexed hidx, or_iff_right hidx]
  constructor
  · rintro h re hre ⟨newer, m, older, hrows, hmatch, hfew, hearly⟩
    have hlate := (h _ (congrArg _ hre)).2 m
      (mem_take_filter.mpr ⟨newer, older, hrows, hmatch, hfew⟩) (by omega)
    omega
  · intro h hits hhits
    refine ⟨fitting_searchRegex hhits, fun m hm hpos => ?_⟩
    obtain ⟨re, hre, rfl⟩ := Option.map_eq_some_iff.mp hhits
    obtain ⟨newer, older, hrows, hmatch, hfew⟩ := mem_take_filter.mp hm
    by_contra hearly
    exact h re hre ⟨newer, m, older, hrows, hmatch, hfew, by omega⟩

def earlyMessage : Tables where
  sessions := [{ sessionID := "s", userID := "u", projectDir := "", filePath := "", fileMtime := 0
                 indexedAt := 0, lastSeenAt := 0, platform := "", bytesSeen := 0 }]
  messages := [{ uuid := "", sessionID := "s", parentUUID := "", epoch := 0, timestamp := ""
                 role := "user", content := [], platform := "" }]

def indexOf (reads : Bool) : FullText where
  matches_ _ := if reads then some fun _ => true else none
  bm25 _ _ _ := 0

/-- **A search by regular expression returns messages before the epoch asked for.** -/
theorem search_ignores_epoch :
    Service.search (indexOf false) (fun _ => some fun _ => true) earlyMessage "u" "a"
        { sinceEpoch := 1 } = some earlyMessage.messages ∧
      earlyMessage.messages.map (·.epoch) = [0] := by
  decide +kernel

theorem visible_serviceSearch {query : String}
    (h : Service.search fts compile t userID query opts = some hits) (hm : m ∈ hits) :
    Visible t userID m := by
  by_cases hidx : Indexed fts query
  · obtain ⟨q, hq⟩ := serviceSearch_of_indexed hidx
    exact (fits_of_search (hq.symm.trans h) hm).1.visible
  · rw [serviceSearch_of_not_indexed hidx] at h
    exact ((fitting_searchRegex h).fits m hm).visible

theorem visible_sessionExtract {sessionID : String} {fromEpoch : ℤ}
    (h : sessionExtract t userID sessionID fromEpoch = some msgs) (hm : m ∈ msgs) :
    Visible t userID m := by
  unfold sessionExtract at h
  split at h
  · simp at h
  next s hs =>
  split at h
  · simp at h
  next huser =>
  cases h
  obtain ⟨hmem, hcond⟩ := List.mem_filter.mp hm
  simp only [decide_eq_true_eq] at hcond
  refine ⟨hmem, ?_⟩
  rw [Tables.owner, hcond.1, hs, Option.map_some, not_not.mp huser]

inductive Returned (fts : FullText) (compile : String → Option (Bytes → Bool)) (t : Tables)
    (userID : String) (m : Message) : Prop
  | search {query opts hits} (h : search fts t userID query opts = some hits) (hm : m ∈ hits)
  | searchRegex {pattern opts hits} (h : searchRegex compile t userID pattern opts = some hits)
      (hm : m ∈ hits)
  | serviceSearch {query opts hits}
      (h : Service.search fts compile t userID query opts = some hits) (hm : m ∈ hits)
  | sessionExtract {sessionID fromEpoch msgs}
      (h : sessionExtract t userID sessionID fromEpoch = some msgs) (hm : m ∈ msgs)

theorem Returned.visible (h : Returned fts compile t userID m) : Visible t userID m := by
  cases h with
  | search h hm => exact (fits_of_search h hm).1.visible
  | searchRegex h hm => exact ((fitting_searchRegex h).fits m hm).visible
  | serviceSearch h hm => exact visible_serviceSearch h hm
  | sessionExtract h hm => exact visible_sessionExtract h hm

/-! ### Isolation -/

/-- In the run of `calls`, the message was stored by a call of this user. -/
def IngestedBy (svc : Service) (calls : List IngestCall) (userID : String) (m : Message) : Prop :=
  ∃ before c after, calls = before ++ c :: after ∧ c.userID = userID ∧
    m ∉ (run svc .empty before).messages ∧ m ∈ (run svc .empty (before ++ [c])).messages

theorem ingestedBy_owner (svc : Service) (calls : List IngestCall)
    (hm : m ∈ (run svc .empty calls).messages)
    (hu : (run svc .empty calls).owner m.sessionID = some u) : IngestedBy svc calls u m := by
  induction calls using List.reverseRecOn with
  | nil => simp [run, DB.empty] at hm
  | append_singleton calls c ih => ?_
  by_cases hold : m ∈ (run svc .empty calls).messages
  · -- the message was there before: its session had the same owner then
    have href := (run svc .empty calls).ok.reference m hold
    obtain ⟨s, hs⟩ := Option.isSome_iff_exists.mp href
    have hprev : (run svc .empty calls).owner m.sessionID = some s.userID := by
      rw [Tables.owner, hs, Option.map_some]
    have hsame : s.userID = u := by
      rw [run_concat, owner_ingest hprev] at hu
      exact Option.some.inj hu
    obtain ⟨before, c', after, rfl, huser, hnew, hstored⟩ := ih hold (hsame ▸ hprev)
    exact ⟨before, c', after ++ [c], by simp, huser, hnew, hstored⟩
  · -- the message is new: it belongs to the session of the request
    refine ⟨calls, c, [], rfl, ?_, hold, hm⟩
    rw [run_concat] at hm hu
    rcases ingest_cases svc (run svc .empty calls) c with
      ⟨e, he⟩ | ⟨msgs, events, hv, howner, ht, -⟩
    · rw [he] at hm
      exact absurd hm hold
    rw [ht] at hm hu
    rcases (messages_ingestTx (sessionID_of_validate hv)).2 m hm with hm | hsid
    · exact absurd hm hold
    rw [owner_ingestTx, if_pos hsid, hsid] at hu
    rcases howner with h | h <;> rw [h] at hu <;> exact Option.some.inj hu

theorem ingest_foreign (hu : db.owner c.req.sessionID = some u) (hne : u ≠ c.userID) :
    (ingest svc db c).1 = db ∧
      (∀ e, validate svc c.req = .error e → (ingest svc db c).2 = .error e) ∧
      ((validate svc c.req).toBool = true →
        (∀ f, f = .begin ∨ f = .owner → c.fault = some f →
          (ingest svc db c).2 = .error (.storage f)) ∧
        (c.fault ≠ some .begin → c.fault ≠ some .owner →
          (ingest svc db c).2 = .error .foreignSession)) := by
  have hforeign : db.owner c.req.sessionID ≠ none ∧ db.owner c.req.sessionID ≠ some c.userID := by
    rw [hu]
    exact ⟨by simp, fun h => hne (Option.some.inj h)⟩
  unfold ingest
  split
  · next e hv => simp [hv, Except.toBool]
  next msgs events hv =>
  simp only [hv, hforeign, and_self, ne_eq, not_false_eq_true, if_true]
  split
  · next hf => simp [hf]
  next hbegin =>
  split
  · next hf => simp [hf]
  · next howner => simp [hbegin, howner]

/-- **Users are kept apart over every sequence of ingests.**  The owner of a session never
changes once it has one.  A call into a session of another user leaves every table as it
was and fails: with the foreign-session error when the request is well formed and the
storage answers, and otherwise with the error that came before the owner was known.  And
whatever a search, a regular-expression search or a session dump returns to a user was
stored by a call of that user. -/
theorem isolation (svc : Service) (fts : FullText) (compile : String → Option (Bytes → Bool))
    (calls : List IngestCall) :
    (∀ calls' sid u, (run svc .empty calls).owner sid = some u →
      (run svc .empty (calls ++ calls')).owner sid = some u) ∧
    (∀ c u, (run svc .empty calls).owner c.req.sessionID = some u → u ≠ c.userID →
      (ingest svc (run svc .empty calls) c).1 = run svc .empty calls ∧
      (∀ e, validate svc c.req = .error e → (ingest svc (run svc .empty calls) c).2 = .error e) ∧
      ((validate svc c.req).toBool = true →
        (∀ f, f = .begin ∨ f = .owner → c.fault = some f →
          (ingest svc (run svc .empty calls) c).2 = .error (.storage f)) ∧
        (c.fault ≠ some .begin → c.fault ≠ some .owner →
          (ingest svc (run svc .empty calls) c).2 = .error .foreignSession))) ∧
    ∀ user m, Returned fts compile (run svc .empty calls).toTables user m →
      IngestedBy svc calls user m := by
  refine ⟨fun calls' sid u h => ?_, fun c u hu hne => ingest_foreign hu hne, fun user m h => ?_⟩
  · rw [run_append]
    exact owner_run h calls'
  · exact ingestedBy_owner svc calls h.visible.1 h.visible.2

/-- A request without a platform is turned away for that, also when the session it names
belongs to another user. -/
theorem foreign_ingest_without_platform :
    ¬ ∀ (svc : Service) (calls : List IngestCall) (c : IngestCall) (u : String),
      (run svc .empty calls).owner c.req.sessionID = some u → u ≠ c.userID →
        (ingest svc (run svc .empty calls) c).2 = .error .foreignSession := by
  intro h
  have := h ⟨shippedRegistry fun _ => true, fun _ => none⟩
    [⟨"u", ⟨"s", "/p", "/p/s.jsonl", 0, 0, "claude-code", [], "", "", false, "", none⟩, 0, none⟩]
    ⟨"v", ⟨"s", "/p", "/p/s.jsonl", 0, 0, "", [], "", "", false, "", none⟩, 0, none⟩ "u"
    (by decide +kernel) (by decide)
  exact absurd this (by decide +kernel)

end ArcRelay.Memory
