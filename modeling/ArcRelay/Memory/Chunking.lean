import ArcRelay.Memory.Replay
import Mathlib.Data.List.Flatten

/-!
# Transcripts in chunks

A long transcript reaches the relay in chunks, cut at newlines, and each chunk is parsed on
its own.  The parser carries one thing from line to line, the count of compactions, and
starts it at zero for every chunk; and a line that is too long for the scanner fails the
chunk it stands in, and only that one.  So the stored messages are those of the transcript
ingested as a whole exactly when no message stands in a chunk behind a compaction in an
earlier chunk, and nothing else is in the way of an overlong line (`chunking_kept_iff`).

* `ChunkingKept`: what the chunks must be like.
* `chunking_kept_iff`, `epoch_lost`: chunks are stored as the whole is, and a cut that loses the
  count.
-/

namespace ArcRelay.Memory

open Json Lines Watcher List

/-! ### Cutting -/

inductive CutAtNewlines : List Bytes → Bytes → Prop
  | last (chunk : Bytes) : CutAtNewlines [chunk] chunk
  | cons {chunk : Bytes} {chunks : List Bytes} {rest : Bytes} (hend : Ends newline chunk)
      (h : CutAtNewlines chunks rest) : CutAtNewlines (chunk :: chunks) (chunk ++ rest)

theorem scanTokens_append {a : Bytes} (h : Ends newline a) (b : Bytes) :
    scanTokens (a ++ b) = scanTokens a ++ scanTokens b := by
  have hb : b.splitOn newline ≠ [] := splitOn_ne_nil _ _
  have hlast : ((linesAt newline 0 a).map (·.2) ++ b.splitOn newline).getLast? =
      (b.splitOn newline).getLast? := by
    obtain ⟨x, hx⟩ := Option.isSome_iff_exists.mp (getLast?_isSome.mpr hb)
    rw [getLast?_append, hx]
    rfl
  have hsplit : (a ++ b).splitOn newline = (linesAt newline 0 a).map (·.2) ++ b.splitOn newline :=
    splitOn_append h b
  rw [scanTokens_of_ends h, scanTokens, scanTokens, hsplit, hlast]
  split
  · rw [dropLast_append_of_ne_nil hb]
  · rfl

theorem CutAtNewlines.scanTokens {chunks : List Bytes} {text : Bytes}
    (h : CutAtNewlines chunks text) : scanTokens text = chunks.flatMap Memory.scanTokens := by
  induction h with
  | last chunk => simp
  | cons hend _ ih => rw [scanTokens_append hend, flatMap_cons, ih]

/-! ### Lines after lines -/

section

variable (isPrint : Char → Bool)

def readLines : ℕ → List Bytes → List ParsedMessage
  | _, [] => []
  | epoch, line :: lines =>
    match parseRecord isPrint line with
    | some (.message m) => { m with epoch := epoch } :: readLines epoch lines
    | some (.compact _) => readLines (epoch + 1) lines
    | none => readLines epoch lines

def isCompaction (line : Bytes) : Bool :=
  match parseRecord isPrint line with
  | some (.compact _) => true
  | _ => false

def compactions (lines : List Bytes) : ℕ := lines.countP (isCompaction isPrint)

theorem readLines_append (epoch : ℕ) (lines lines' : List Bytes) :
    readLines isPrint epoch (lines ++ lines') =
      readLines isPrint epoch lines ++
        readLines isPrint (epoch + compactions isPrint lines) lines' := by
  induction lines generalizing epoch with
  | nil => rfl
  | cons line lines ih => ?_
  unfold compactions at ih ⊢
  rw [cons_append, readLines, readLines, countP_cons]
  cases hrec : parseRecord isPrint line with
  | none => simp [isCompaction, hrec, ih]
  | some r => ?_
  cases r with
  | message m => simp [isCompaction, hrec, ih]
  | compact e => ?_
  simp only [isCompaction, hrec, ih, if_true]
  rw [show epoch + 1 + List.countP (isCompaction isPrint) lines =
    epoch + (List.countP (isCompaction isPrint) lines + 1) by omega]

theorem readLines_eq_map (epoch : ℕ) (lines : List Bytes) :
    readLines isPrint epoch lines =
      (readLines isPrint 0 lines).map fun m => { m with epoch := m.epoch + epoch } := by
  have hshift : ∀ (a b : ℕ), readLines isPrint (a + b) lines =
      (readLines isPrint a lines).map fun m => { m with epoch := m.epoch + b } := by
    induction lines with
    | nil => exact fun _ _ => rfl
    | cons line lines ih => ?_
    intro a b
    rw [readLines, readLines]
    cases parseRecord isPrint line with
    | none => exact ih a b
    | some r => ?_
    cases r with
    | message m => exact congrArg (List.cons _) (ih a b)
    | compact e => ?_
    have hih := ih (a + 1) b
    rw [Nat.add_right_comm] at hih
    exact hih
  have hzero := hshift 0 epoch
  rwa [Nat.zero_add] at hzero

theorem foldl_parseStep_eq (lines : List Bytes) (epoch : ℕ) (msgs : List ParsedMessage)
    (events : List CompactEvent) :
    (lines.foldl (parseStep isPrint) (epoch, msgs, events)).2.1 =
      msgs ++ readLines isPrint epoch lines := by
  induction lines generalizing epoch msgs events with
  | nil => simp [readLines]
  | cons line lines ih => ?_
  rw [foldl_cons, readLines]
  cases hrec : parseRecord isPrint line with
  | none =>
    simp only [parseStep, hrec]
    exact ih epoch msgs events
  | some r => ?_
  cases r with
  | message m =>
    simp only [parseStep, hrec]
    rw [ih, append_assoc]
    rfl
  | compact e =>
    simp only [parseStep, hrec]
    exact ih (epoch + 1) msgs _

theorem uuids_readLines (epoch : ℕ) (lines : List Bytes) :
    (readLines isPrint epoch lines).map (·.uuid) =
      (lines.filterMap (lineMessage isPrint)).map (·.uuid) := by
  have hfold := foldl_parseStep_uuids isPrint lines epoch [] []
  rw [foldl_parseStep_eq] at hfold
  simpa using hfold

def overlong (jsonl : Bytes) : Bool := (scanTokens jsonl).any (maxLine ≤ ·.length)

/-- The messages an ingest of this text brings; none when a line is too long. -/
def parsedMessages (jsonl : Bytes) : List ParsedMessage :=
  if overlong jsonl then [] else readLines isPrint 0 (scanTokens jsonl)

theorem parseClaudeCodeJSONL_eq (jsonl : Bytes) :
    parseClaudeCodeJSONL isPrint jsonl = none ∧ parsedMessages isPrint jsonl = [] ∨
      ∃ events, parseClaudeCodeJSONL isPrint jsonl =
        some (parsedMessages isPrint jsonl, events) := by
  unfold parseClaudeCodeJSONL parsedMessages overlong
  dsimp only
  split
  · exact .inl ⟨rfl, rfl⟩
  refine .inr ⟨((scanTokens jsonl).foldl (parseStep isPrint) (0, [], [])).2.2, ?_⟩
  have hmsgs := foldl_parseStep_eq isPrint (scanTokens jsonl) 0 [] []
  rw [nil_append] at hmsgs
  rw [← hmsgs]

end

/-! ### The stored transcript -/

def Message.parsed (m : Message) : ParsedMessage where
  uuid := m.uuid
  parentUUID := m.parentUUID
  epoch := m.epoch
  timestamp := m.timestamp
  role := m.role
  content := m.content

def Tables.transcript (t : Tables) (sid : String) : List ParsedMessage :=
  (t.messages.filter fun m => m.sessionID = sid).map Message.parsed

theorem transcript_insertMessage {t : Tables} {m : Message}
    (hnew : m.uuid ∉ (t.transcript m.sessionID).map (·.uuid)) :
    (t.insertMessage m).1.transcript m.sessionID = t.transcript m.sessionID ++ [m.parsed] := by
  have hkey : ∀ a ∈ t.messages, ¬ a.SameKey m := by
    rintro a ha ⟨-, hsid, huuid⟩
    refine hnew (mem_map.mpr ⟨a.parsed, mem_map.mpr ⟨a, ?_, rfl⟩, huuid⟩)
    rw [mem_filter]
    exact ⟨ha, by simpa using hsid⟩
  unfold Tables.insertMessage
  rw [if_neg (by simpa using hkey)]
  unfold Tables.transcript
  simp [Message.parsed]

theorem transcript_bulkInsert {sid : String} (t : Tables) {ms : List Message}
    (hsid : ∀ m ∈ ms, m.sessionID = sid)
    (hnew : ((t.transcript sid ++ ms.map Message.parsed).map (·.uuid)).Nodup) :
    (t.bulkInsert ms).1.transcript sid = t.transcript sid ++ ms.map Message.parsed := by
  induction ms generalizing t with
  | nil => simp [Tables.bulkInsert]
  | cons m ms ih => ?_
  obtain rfl := hsid m mem_cons_self
  have hfirst : m.uuid ∉ (t.transcript m.sessionID).map (·.uuid) := by
    intro hmem
    rw [map_append, map_cons] at hnew
    exact (nodup_append.mp hnew).2.2 _ hmem _ mem_cons_self rfl
  have hinsert := transcript_insertMessage hfirst
  have happend : t.transcript m.sessionID ++ (m :: ms).map Message.parsed =
      (t.insertMessage m).1.transcript m.sessionID ++ ms.map Message.parsed := by
    rw [hinsert, append_assoc]
    rfl
  rw [happend] at hnew ⊢
  exact ih _ (fun a ha => hsid a (mem_cons_of_mem m ha)) hnew

/-! ### Ingests of one session -/

/-- A call that sends a piece of the transcript of a session, and that the storage does not
fail. -/
structure Sends (user sid : String) (c : IngestCall) : Prop where
  user : c.userID = user
  session : c.req.sessionID = sid
  named : sid ≠ ""
  platform : c.req.platform = "claude-code"
  stored : c.fault = none

/-- The session is new, or the user's own. -/
def OpenTo (t : Tables) (user sid : String) : Prop := t.owner sid = none ∨ t.owner sid = some user

def shipped (isPrint : Char → Bool) (parseTimestamp : String → Option ℤ) : Service :=
  ⟨shippedRegistry isPrint, parseTimestamp⟩

section

variable (isPrint : Char → Bool) (parseTimestamp : String → Option ℤ) {user sid : String} {db : DB}

/-- **An ingest appends the messages of its text**, as long as their uuids are new. -/
theorem transcript_ingest {c : IngestCall} (hc : Sends user sid c)
    (hopen : OpenTo db.toTables user sid)
    (hnew : ((db.transcript sid ++ parsedMessages isPrint c.req.jsonl).map (·.uuid)).Nodup) :
    (ingest (shipped isPrint parseTimestamp) db c).1.transcript sid =
        db.transcript sid ++ parsedMessages isPrint c.req.jsonl ∧
      OpenTo (ingest (shipped isPrint parseTimestamp) db c).1.toTables user sid := by
  have hown : ¬ (db.owner c.req.sessionID ≠ none ∧ db.owner c.req.sessionID ≠ some c.userID) := by
    rw [hc.session, hc.user]
    rintro ⟨hne, hne'⟩
    exact hopen.elim hne hne'
  have hvalidate : validate (shipped isPrint parseTimestamp) c.req =
      (parseClaudeCodeJSONL isPrint c.req.jsonl).elim (.error .parse) fun r =>
        .ok (r.1.map (messageOf c.req), r.2) := by
    have hsession : c.req.sessionID ≠ "" := hc.session ▸ hc.named
    have hplatform : c.req.platform ≠ "" := by simp [hc.platform]
    have hregistry : (shipped isPrint parseTimestamp).registry c.req.platform =
        some (parseClaudeCodeJSONL isPrint) := by simp [shipped, shippedRegistry, hc.platform]
    rw [validate, if_neg hsession, if_neg hplatform, hregistry]
    dsimp only
    cases parseClaudeCodeJSONL isPrint c.req.jsonl with
    | none | some => rfl
  have hok := ingest_ok_iff (shipped isPrint parseTimestamp) db c
  rcases ingest_committed (shipped isPrint parseTimestamp) db c with
    ⟨hfail, hdb, -⟩ | ⟨msgs, events, hv, -, -, -, ht⟩
  · rcases parseClaudeCodeJSONL_eq isPrint c.req.jsonl with ⟨-, hnone⟩ | ⟨events, hsome⟩
    · rw [hdb, hnone, append_nil]
      exact ⟨rfl, hopen⟩
    -- a text that parses is not refused
    rw [hvalidate, hsome] at hok
    rw [hok.mpr ⟨rfl, hc.stored, hown⟩] at hfail
    cases hfail
  · rw [hvalidate] at hv
    rcases parseClaudeCodeJSONL_eq isPrint c.req.jsonl with ⟨hnone, -⟩ | ⟨events', hsome⟩
    · rw [hnone] at hv
      cases hv
    rw [hsome] at hv
    obtain ⟨rfl, -⟩ := Prod.mk.inj (Except.ok.inj hv)
    have hparsed : ((parsedMessages isPrint c.req.jsonl).map (messageOf c.req)).map
        Message.parsed = parsedMessages isPrint c.req.jsonl := by
      rw [map_map]
      exact map_id _
    refine ⟨?_, ?_⟩
    · have hsid : ∀ m ∈ (parsedMessages isPrint c.req.jsonl).map (messageOf c.req),
          m.sessionID = sid := by
        intro m hm
        obtain ⟨p, -, rfl⟩ := mem_map.mp hm
        exact hc.session
      have hinsert := transcript_bulkInsert (db.upsertSession (sessionOfCall c)) hsid
      rw [hparsed] at hinsert
      rw [ht]
      exact hinsert hnew
    · refine .inr ?_
      rw [ht, owner_ingestTx, if_pos hc.session.symm, hc.user]
      rcases hopen with hnone | hsome
      · rw [hnone]
        rfl
      · rw [hsome]
        rfl

/-- **What a run of ingests appends to a session.** -/
theorem transcript_run {calls : List IngestCall} (hcalls : ∀ c ∈ calls, Sends user sid c)
    (hopen : OpenTo db.toTables user sid)
    (hnew : ((db.transcript sid ++
      calls.flatMap fun c => parsedMessages isPrint c.req.jsonl).map (·.uuid)).Nodup) :
    (run (shipped isPrint parseTimestamp) db calls).transcript sid =
      db.transcript sid ++ calls.flatMap fun c => parsedMessages isPrint c.req.jsonl := by
  induction calls generalizing db with
  | nil => simp [run]
  | cons c calls ih => ?_
  rw [flatMap_cons, ← append_assoc] at hnew ⊢
  have hfirst : ((db.transcript sid ++ parsedMessages isPrint c.req.jsonl).map (·.uuid)).Nodup := by
    rw [map_append] at hnew
    exact (nodup_append.mp hnew).1
  obtain ⟨hstep, hopen'⟩ :=
    transcript_ingest isPrint parseTimestamp (hcalls c mem_cons_self) hopen hfirst
  rw [← hstep] at hnew ⊢
  exact ih (fun a ha => hcalls a (mem_cons_of_mem c ha)) hopen' hnew

end

/-! ### When chunks do not matter -/

section

variable (isPrint : Char → Bool) {chunks : List Bytes} {text : Bytes}

/-- No message stands in a chunk behind a compaction in an earlier chunk, where so many
compactions stand before the first chunk. -/
def EpochsKept : ℕ → List Bytes → Prop
  | _, [] => True
  | epoch, chunk :: chunks =>
    (epoch = 0 ∨ readLines isPrint 0 (scanTokens chunk) = []) ∧
      EpochsKept (epoch + compactions isPrint (scanTokens chunk)) chunks

/-- What the chunks of a transcript must be like: with an overlong line the whole is
refused, so the other chunks must have no messages; without one, no message may stand
behind a compaction in an earlier chunk. -/
def ChunkingKept (chunks : List Bytes) : Prop :=
  if chunks.any overlong then ∀ chunk ∈ chunks, parsedMessages isPrint chunk = []
  else EpochsKept isPrint 0 chunks

theorem readLines_flatMap_iff (epoch : ℕ) (chunks : List Bytes) :
    (chunks.flatMap fun chunk => readLines isPrint 0 (scanTokens chunk)) =
        readLines isPrint epoch (chunks.flatMap scanTokens) ↔
      EpochsKept isPrint epoch chunks := by
  induction chunks generalizing epoch with
  | nil => simp [readLines, EpochsKept]
  | cons chunk chunks ih => ?_
  have hshift := readLines_eq_map isPrint epoch (scanTokens chunk)
  have hlen : (readLines isPrint 0 (scanTokens chunk)).length =
      (readLines isPrint epoch (scanTokens chunk)).length := by
    rw [hshift, length_map]
  have hfirst : readLines isPrint 0 (scanTokens chunk) =
      readLines isPrint epoch (scanTokens chunk) ↔
        epoch = 0 ∨ readLines isPrint 0 (scanTokens chunk) = [] := by
    constructor
    · intro heq
      rw [hshift] at heq
      cases hmsgs : readLines isPrint 0 (scanTokens chunk) with
      | nil => exact .inr rfl
      | cons m ms => ?_
      -- the epoch of the first message tells the two apart
      rw [hmsgs, map_cons] at heq
      have hepoch := congrArg ParsedMessage.epoch (List.cons.inj heq).1
      exact .inl (Nat.left_eq_add.mp hepoch)
    · rintro (rfl | hnone)
      · rfl
      rw [hshift, hnone]
      rfl
  rw [flatMap_cons, flatMap_cons, readLines_append, EpochsKept, ← ih, ← hfirst]
  constructor
  · intro heq
    exact append_inj heq hlen
  · rintro ⟨hhead, htail⟩
    rw [hhead, htail]

theorem CutAtNewlines.overlong (h : CutAtNewlines chunks text) :
    overlong text = chunks.any Memory.overlong := by
  unfold Memory.overlong
  rw [h.scanTokens, any_flatMap]

theorem parsedMessages_chunks_iff (h : CutAtNewlines chunks text) :
    chunks.flatMap (parsedMessages isPrint) = parsedMessages isPrint text ↔
      ChunkingKept isPrint chunks := by
  unfold ChunkingKept
  by_cases hlong : chunks.any Memory.overlong = true
  · have hnone : parsedMessages isPrint text = [] := by
      rw [parsedMessages, h.overlong, if_pos hlong]
    rw [if_pos hlong, hnone, flatMap_eq_nil_iff]
  have hwhole : parsedMessages isPrint text =
      readLines isPrint 0 (chunks.flatMap Memory.scanTokens) := by
    rw [parsedMessages, h.overlong, if_neg hlong, h.scanTokens]
  have hchunks : chunks.flatMap (parsedMessages isPrint) =
      chunks.flatMap fun chunk => readLines isPrint 0 (Memory.scanTokens chunk) := by
    refine flatMap_congr fun chunk hchunk => ?_
    have hshort : Memory.overlong chunk ≠ true :=
      fun ht => hlong (any_eq_true.mpr ⟨_, hchunk, ht⟩)
    rw [parsedMessages, if_neg hshort]
  rw [if_neg hlong, hwhole, hchunks, readLines_flatMap_iff]

theorem uuids_parsedMessages (h : CutAtNewlines chunks text) :
    ((chunks.flatMap (parsedMessages isPrint)).map (·.uuid)).Sublist
      (((Memory.scanTokens text).filterMap (lineMessage isPrint)).map (·.uuid)) := by
  rw [h.scanTokens, filterMap_flatMap, map_flatMap, map_flatMap]
  refine List.Sublist.flatMap_right _ fun chunk _ => ?_
  unfold parsedMessages
  split
  · exact nil_sublist _
  · rw [uuids_readLines]

end

/-- **Chunks are stored as the whole is, exactly under the condition**: whatever the cuts,
when the messages of the transcript have distinct uuids. -/
theorem chunking_kept_iff (isPrint : Char → Bool) (parseTimestamp : String → Option ℤ) (db : DB)
    {user sid : String} {calls : List IngestCall} {whole : IngestCall}
    (hcalls : ∀ c ∈ calls, Sends user sid c) (hwhole : Sends user sid whole)
    (hcut : CutAtNewlines (calls.map (·.req.jsonl)) whole.req.jsonl)
    (hopen : OpenTo db.toTables user sid) (hempty : db.transcript sid = [])
    (hdistinct : (((scanTokens whole.req.jsonl).filterMap (lineMessage isPrint)).map
      (·.uuid)).Nodup) :
    (run (shipped isPrint parseTimestamp) db calls).transcript sid =
        (ingest (shipped isPrint parseTimestamp) db whole).1.transcript sid ↔
      ChunkingKept isPrint (calls.map (·.req.jsonl)) := by
  have hflat : (calls.flatMap fun c => parsedMessages isPrint c.req.jsonl) =
      (calls.map (·.req.jsonl)).flatMap (parsedMessages isPrint) := by
    rw [flatMap_map]
  have hsome : ((db.transcript sid ++
      calls.flatMap fun c => parsedMessages isPrint c.req.jsonl).map (·.uuid)).Nodup := by
    rw [hempty, nil_append, hflat]
    exact hdistinct.sublist (uuids_parsedMessages isPrint hcut)
  have hall : ((db.transcript sid ++
      parsedMessages isPrint whole.req.jsonl).map (·.uuid)).Nodup := by
    have hsingle := uuids_parsedMessages isPrint (CutAtNewlines.last whole.req.jsonl)
    rw [flatMap_singleton] at hsingle
    rw [hempty, nil_append]
    exact hdistinct.sublist hsingle
  have hrun := transcript_run isPrint parseTimestamp hcalls hopen hsome
  have hone := (transcript_ingest isPrint parseTimestamp hwhole hopen hall).1
  rw [hrun, hone, hempty, nil_append, nil_append, hflat]
  exact parsedMessages_chunks_iff isPrint hcut

/-! ### Two transcripts -/

def sending (jsonl : Bytes) : IngestCall :=
  ⟨"u", ⟨"s", "/p", "/p/s.jsonl", 0, 0, "claude-code", jsonl, "", "", false, "", none⟩, 0, none⟩

theorem sends_sending (jsonl : Bytes) : Sends "u" "s" (sending jsonl) :=
  ⟨rfl, rfl, by decide, rfl, rfl⟩

def userLine (uuid : String) : Bytes :=
  utf8 ("\x7b\"type\":\"user\",\"uuid\":\"" ++ uuid ++ "\"\x7d\n")

def compactLine : Bytes := utf8 "\x7b\"type\":\"compact\"\x7d\n"

def plainService : Service := shipped (fun _ => true) fun _ => none

theorem chunking_kept_iff_messages :
    (run plainService .empty [sending (userLine "a"), sending (userLine "b")]).transcript "s" =
      (ingest plainService .empty (sending (userLine "a" ++ userLine "b"))).1.transcript "s" := by
  have hcalls : ∀ c ∈ [sending (userLine "a"), sending (userLine "b")], Sends "u" "s" c := by
    intro c hc
    rcases mem_pair.mp hc with rfl | rfl
    · exact sends_sending _
    · exact sends_sending _
  have hcut : CutAtNewlines [userLine "a", userLine "b"] (userLine "a" ++ userLine "b") :=
    .cons (by decide +kernel) (.last _)
  have hkept : ChunkingKept (fun _ => true) [userLine "a", userLine "b"] := by
    exact ⟨.inl rfl, .inl (by decide +kernel), trivial⟩
  exact (chunking_kept_iff (fun _ => true) (fun _ => none) .empty hcalls
    (sends_sending (userLine "a" ++ userLine "b")) hcut (.inl rfl) rfl
    (by decide +kernel)).mpr hkept

/-- **A cut behind a compaction loses the count**: the message is stored with epoch 0, and
with epoch 1 when the transcript comes as a whole. -/
theorem epoch_lost :
    CutAtNewlines [compactLine, userLine "a"] (compactLine ++ userLine "a") ∧
      (run plainService .empty [sending compactLine, sending (userLine "a")]).transcript "s" =
        [⟨"a", "", 0, "", "user", []⟩] ∧
      (ingest plainService .empty (sending (compactLine ++ userLine "a"))).1.transcript "s" =
        [⟨"a", "", 1, "", "user", []⟩] :=
  ⟨.cons (by decide +kernel) (.last _), by decide +kernel, by decide +kernel⟩

end ArcRelay.Memory
