import ArcRelay.Memory.Store

/-!
# The memory extractor

The relay distils the messages of a session by sending them in chunks to a memory
backend (`internal/memory/extractor/extractor.go`).  A pass takes the next window of
messages above the session's watermark, drops what the filter drops and what an earlier
pass has sent already, sends the rest chunk by chunk, and moves the watermark over the
window only when every chunk went through and was recorded.  A window that fails too
often is abandoned, so that it cannot block the session for ever.

Passes over one session exclude each other by a mutex, so they are one program here, one
after the other; ingests happen between any two of its steps.  What the filter keeps is a
parameter, and so is the outcome of every call, of every database statement and of the
pass's deadline.  The log records the calls and the ranges given up, and beside it stand
the failed passes and the successes that were not recorded; nothing reads them.
-/

namespace ArcRelay.Extract

open Interleave Json Memory List Prog

/-! ### Chunks -/

structure Config where
  sessionID : String
  keep : Message → Bool
  /-- Upper case, as the Unicode tables have it. -/
  toUpper : String → String
  chunkTarget : ℤ := 3000
  passLimit : ℤ := 400
  poisonAfter : ℤ := 4
  maxMessageChars : ℤ := 12000

def runeStart (b : UInt8) : Bool := b.toNat / 64 != 2

/-- The last place at or before `cut` where a character starts. -/
def backToRune (content : Bytes) : ℕ → ℕ
  | 0 => 0
  | cut + 1 => if (content[cut + 1]?).all runeStart then cut + 1 else backToRune content cut

def truncateOversized (max : ℤ) (m : Message) : Message :=
  if max ≤ 0 ∨ (m.content.length : ℤ) ≤ max then m
  else
    let cut := backToRune m.content max.toNat
    { m with
      content := m.content.take cut ++ utf8 s!"\n…[truncated {m.content.length - cut} bytes]" }

section

variable (toUpper : String → String)

def render (m : Message) : Bytes :=
  let role := if m.role = "" then "?" else m.role
  utf8 "[" ++ utf8 (toUpper role) ++ utf8 " " ++ utf8 m.timestamp ++ utf8 "] " ++
    trimSpace m.content ++ utf8 "\n\n"

structure Chunk where
  msgs : List Message
  deriving DecidableEq

def Chunk.text (c : Chunk) : Bytes := c.msgs.flatMap (render toUpper)

def Chunk.uuids (c : Chunk) : List String := c.msgs.map (·.uuid)

structure Chunking where
  out : List Chunk := []
  cur : List Message := []
  buf : Bytes := []

def Chunking.flush (c : Chunking) : Chunking :=
  if c.buf = [] then c else { out := c.out ++ [⟨c.cur⟩] }

/-- Takes one more message: alone when it fills a chunk, else into the open chunk, which
is closed first when the message would not fit. -/
def Chunking.add (target : ℕ) (c : Chunking) (m : Message) : Chunking :=
  let rendered := render toUpper m
  if target ≤ rendered.length then
    let c := c.flush
    { c with out := c.out ++ [⟨[m]⟩] }
  else
    let c := if target < c.buf.length + rendered.length ∧ 0 < c.buf.length then c.flush else c
    { c with cur := c.cur ++ [m], buf := c.buf ++ rendered }

def chunkMessages (target : ℤ) (msgs : List Message) : List Chunk :=
  let target := if target ≤ 0 then 5000 else target.toNat
  (msgs.foldl (Chunking.add toUpper target) {}).flush.out

def Chunking.contents (c : Chunking) : List Message := c.out.flatMap (·.msgs) ++ c.cur

theorem render_ne_nil (m : Message) : render toUpper m ≠ [] := by
  have hopen : utf8 "[" ≠ [] := by decide +kernel
  intro h
  simp only [render, append_eq_nil_iff] at h
  exact hopen h.1.1.1.1.1.1

/-- The open chunk has a text as soon as it has a message. -/
def Chunking.Ok (c : Chunking) : Prop := c.buf = [] → c.cur = []

theorem Chunking.flush_spec {c : Chunking} (hc : c.Ok) :
    c.flush.cur = [] ∧ c.flush.Ok ∧ c.flush.contents = c.contents := by
  unfold Chunking.flush
  split
  · next hbuf => exact ⟨hc hbuf, hc, rfl⟩
  refine ⟨rfl, fun _ => rfl, ?_⟩
  simp [Chunking.contents]

theorem Chunking.add_spec (target : ℕ) {c : Chunking} (hc : c.Ok) (m : Message) :
    (c.add toUpper target m).Ok ∧ (c.add toUpper target m).contents = c.contents ++ [m] := by
  obtain ⟨hcur, hok, hcontents⟩ := Chunking.flush_spec hc
  unfold Chunking.add
  dsimp only
  split
  · refine ⟨hok, ?_⟩
    rw [← hcontents]
    simp [Chunking.contents, hcur]
  -- the message joins the open chunk, which may have been closed before
  have hjoin : ∀ c' : Chunking, c'.contents = c.contents →
      Chunking.Ok { c' with cur := c'.cur ++ [m], buf := c'.buf ++ render toUpper m } ∧
      Chunking.contents { c' with cur := c'.cur ++ [m], buf := c'.buf ++ render toUpper m } =
        c.contents ++ [m] := by
    intro c' hc'
    refine ⟨fun h => ?_, ?_⟩
    · exact absurd (append_eq_nil_iff.mp h).2 (render_ne_nil toUpper m)
    rw [← hc']
    simp [Chunking.contents]
  split
  · exact hjoin _ hcontents
  · exact hjoin _ rfl

/-- **The chunks are the messages, in order**: none is lost, split or sent twice. -/
theorem flatMap_chunkMessages (target : ℤ) (msgs : List Message) :
    (chunkMessages toUpper target msgs).flatMap (·.msgs) = msgs := by
  have hfold : ∀ (t : ℕ) (l : List Message) (c : Chunking), c.Ok →
      (l.foldl (Chunking.add toUpper t) c).Ok ∧
        (l.foldl (Chunking.add toUpper t) c).contents = c.contents ++ l := by
    intro t l
    induction l with
    | nil => exact fun c hc => ⟨hc, (append_nil _).symm⟩
    | cons m l ih => ?_
    intro c hc
    obtain ⟨hok, hcontents⟩ := Chunking.add_spec toUpper t hc m
    obtain ⟨hok', hcontents'⟩ := ih _ hok
    refine ⟨hok', ?_⟩
    rw [foldl_cons, hcontents', hcontents, append_assoc]
    rfl
  have hstart : Chunking.Ok {} := fun _ => rfl
  obtain ⟨hok, hcontents⟩ := hfold (if target ≤ 0 then 5000 else target.toNat) msgs {} hstart
  obtain ⟨hcur, -, hflush⟩ := Chunking.flush_spec hok
  rw [hcontents, Chunking.contents, hcur, append_nil] at hflush
  exact hflush

theorem mem_chunkMessages (target : ℤ) (msgs : List Message) (a : Message) :
    (∃ k ∈ chunkMessages toUpper target msgs, a ∈ k.msgs) ↔ a ∈ msgs := by
  rw [← mem_flatMap, flatMap_chunkMessages]

/-! ### What is sent -/

structure RenderedChunk where
  text : Bytes
  uuids : List String
  chars : ℕ

/-- `ChunkMessages` at work: the chunks that are closed, the builder and the uuids of the open
one. -/
structure Builder where
  out : List RenderedChunk := []
  curBuf : Bytes := []
  curUUIDs : List String := []

/-- Closes the open chunk with a copy of its uuids, and empties the builder. -/
def Builder.flush (b : Builder) : Builder :=
  if b.curBuf.length = 0 then b
  else { out := b.out ++ [⟨b.curBuf, b.curUUIDs, b.curBuf.length⟩] }

def Builder.add (target : ℕ) (b : Builder) (m : Message) : Builder :=
  let rendered := render toUpper m
  if target ≤ rendered.length then
    let b := b.flush
    { b with out := b.out ++ [⟨rendered, [m.uuid], rendered.length⟩] }
  else
    let b := if target < b.curBuf.length + rendered.length ∧ 0 < b.curBuf.length then b.flush else b
    { b with curBuf := b.curBuf ++ rendered, curUUIDs := b.curUUIDs ++ [m.uuid] }

def renderedChunks (target : ℤ) (msgs : List Message) : List RenderedChunk :=
  let target := if target ≤ 0 then 5000 else target.toNat
  (msgs.foldl (Builder.add toUpper target) {}).flush.out

def Chunk.rendered (c : Chunk) : RenderedChunk := ⟨c.text toUpper, c.uuids, (c.text toUpper).length⟩

def Chunking.builder (c : Chunking) : Builder where
  out := c.out.map (Chunk.rendered toUpper)
  curBuf := c.buf
  curUUIDs := c.cur.map (·.uuid)

def Chunk.Sized (target : ℕ) (c : Chunk) : Prop :=
  c.msgs ≠ [] ∧
    ((c.text toUpper).length ≤ target ∨ ∃ m, c.msgs = [m] ∧ target ≤ (render toUpper m).length)

structure Chunking.Fits (target : ℕ) (c : Chunking) : Prop where
  buf : c.buf = c.cur.flatMap (render toUpper)
  small : c.buf.length ≤ target
  sized : ∀ k ∈ c.out, k.Sized toUpper target

variable {toUpper} {target : ℕ} {c : Chunking}

theorem Chunking.Fits.flush (h : c.Fits toUpper target) :
    c.flush.Fits toUpper target ∧ c.flush.buf = [] ∧
      c.flush.builder toUpper = (c.builder toUpper).flush := by
  unfold Chunking.flush Builder.flush
  by_cases hbuf : c.buf = []
  · simp [hbuf, h, Chunking.builder]
  have hcur : c.cur ≠ [] := by
    intro hnil
    exact hbuf (by rw [h.buf, hnil, flatMap_nil])
  have htext : Chunk.text toUpper ⟨c.cur⟩ = c.buf := h.buf.symm
  refine ⟨?_, ?_, ?_⟩
  · rw [if_neg hbuf]
    refine ⟨rfl, Nat.zero_le _, fun k hk => ?_⟩
    rcases mem_append.mp hk with hk | hk
    · exact h.sized k hk
    obtain rfl := mem_singleton.mp hk
    exact ⟨hcur, .inl (htext ▸ h.small)⟩
  · rw [if_neg hbuf]
  · simp [hbuf, Chunking.builder, Chunk.rendered, htext, Chunk.uuids]

theorem Chunking.Fits.add (h : c.Fits toUpper target) (m : Message) :
    (c.add toUpper target m).Fits toUpper target ∧
      (c.add toUpper target m).builder toUpper = (c.builder toUpper).add toUpper target m := by
  obtain ⟨hfits, hempty, hflush⟩ := h.flush
  unfold Chunking.add Builder.add
  dsimp only
  split
  · next hbig =>
    rw [← hflush]
    refine ⟨⟨hfits.buf, hfits.small, fun k hk => ?_⟩, ?_⟩
    · rcases mem_append.mp hk with hk | hk
      · exact hfits.sized k hk
      obtain rfl := mem_singleton.mp hk
      exact ⟨cons_ne_nil _ _, .inr ⟨m, rfl, hbig⟩⟩
    · simp [Chunking.builder, Chunk.rendered, Chunk.text, Chunk.uuids]
  next hsmall =>
  -- the message joins the open chunk, which has room for it
  have hjoin : ∀ c' : Chunking, c'.Fits toUpper target →
      c'.buf.length + (render toUpper m).length ≤ target →
      Chunking.Fits toUpper target
        { c' with cur := c'.cur ++ [m], buf := c'.buf ++ render toUpper m } := by
    intro c' hc' hroom
    refine ⟨?_, ?_, hc'.sized⟩
    · simp [hc'.buf]
    · rwa [length_append]
  have hcur : (c.builder toUpper).curBuf = c.buf := rfl
  rw [hcur]
  split
  · refine ⟨hjoin _ hfits ?_, ?_⟩
    · rw [hempty, length_nil]
      omega
    · rw [← hflush]
      simp [Chunking.builder]
  next hroom =>
  refine ⟨hjoin _ h ?_, ?_⟩
  · omega
  · simp [Chunking.builder]

theorem renderedChunks_spec (toUpper : String → String) (target : ℤ) (msgs : List Message) :
    renderedChunks toUpper target msgs =
        (chunkMessages toUpper target msgs).map (Chunk.rendered toUpper) ∧
      ∀ k ∈ chunkMessages toUpper target msgs,
        k.Sized toUpper (if target ≤ 0 then 5000 else target.toNat) := by
  have hfold : ∀ (n : ℕ) (l : List Message) (c : Chunking), c.Fits toUpper n →
      (l.foldl (Chunking.add toUpper n) c).Fits toUpper n ∧
        (l.foldl (Chunking.add toUpper n) c).builder toUpper =
          l.foldl (Builder.add toUpper n) (c.builder toUpper) := by
    intro n l
    induction l with
    | nil => exact fun c hc => ⟨hc, rfl⟩
    | cons m l ih => ?_
    intro c hc
    obtain ⟨hfits, hbuilder⟩ := hc.add m
    rw [foldl_cons, foldl_cons, ← hbuilder]
    exact ih _ hfits
  obtain ⟨hfits, hbuilder⟩ := hfold (if target ≤ 0 then 5000 else target.toNat) msgs {}
    ⟨rfl, Nat.zero_le _, nofun⟩
  obtain ⟨hfits', -, hflush⟩ := hfits.flush
  refine ⟨?_, hfits'.sized⟩
  rw [hbuilder] at hflush
  exact congrArg Builder.out hflush.symm

/-- **The grouping loses nothing**: texts and uuids are those of the messages in order, and a
chunk is at most as long as the target or is one message that is at least as long. -/
theorem renderedChunks_lossless (toUpper : String → String) (target : ℤ) (msgs : List Message) :
    (renderedChunks toUpper target msgs).flatMap (·.text) = msgs.flatMap (render toUpper) ∧
    (renderedChunks toUpper target msgs).flatMap (·.uuids) = msgs.map (·.uuid) ∧
    ∀ k ∈ renderedChunks toUpper target msgs,
      k.text ≠ [] ∧ k.uuids ≠ [] ∧ k.chars = k.text.length ∧
      (k.text.length ≤ (if target ≤ 0 then 5000 else target.toNat) ∨
        ∃ m ∈ msgs, k.text = render toUpper m ∧ k.uuids = [m.uuid] ∧
          (if target ≤ 0 then 5000 else target.toNat) ≤ (render toUpper m).length) := by
  obtain ⟨heq, hsized⟩ := renderedChunks_spec toUpper target msgs
  rw [heq]
  refine ⟨?_, ?_, ?_⟩
  · rw [flatMap_map]
    conv_rhs => rw [← flatMap_chunkMessages toUpper target msgs, flatMap_assoc]
    rfl
  · rw [flatMap_map]
    conv_rhs => rw [← flatMap_chunkMessages toUpper target msgs, map_flatMap]
    rfl
  rw [forall_mem_map]
  intro k hk
  obtain ⟨hne, hsize⟩ := hsized k hk
  obtain ⟨m, l, hmsgs⟩ := exists_cons_of_ne_nil hne
  refine ⟨?_, ?_, rfl, hsize.imp_right ?_⟩
  · simp [Chunk.rendered, Chunk.text, hmsgs, render_ne_nil]
  · simp [Chunk.rendered, Chunk.uuids, hmsgs]
  rintro ⟨m, hone, hbig⟩
  have hm : m ∈ msgs := (mem_chunkMessages toUpper target msgs m).mp ⟨k, hk, by simp [hone]⟩
  exact ⟨m, hm, by simp [Chunk.rendered, Chunk.text, hone],
    by simp [Chunk.rendered, Chunk.uuids, hone], hbig⟩

end

/-! ### The programs -/

/-- A row of `memory_extractions`; a row without an error stands for a call that
succeeded. -/
structure MemoryExtraction where
  extractedAt : ℤ
  chunkIndex : ℕ
  chunkMsgUUIDs : List String
  chunkChars : ℕ
  mem0MemoryIDs : List String
  error : Option String

/-- What happened, for the specification only. -/
inductive Entry where
  | called (c : Chunk) (answer : Except String (List String))
  /-- The messages above the first id, up to the second, were given up. -/
  | poisoned (after through : ℕ)

/-- A pass that has started: the end of its window, the messages it has to send, the
chunks it has called the backend for, and whether it met an end of its context or an error
of the rate limiter. -/
structure Pass where
  through : ℕ := 0
  fresh : List Message := []
  calls : List Chunk := []
  cut : Bool := false

/-- A range that was given up, and the failed passes that were counted for it. -/
structure Abandonment where
  after : ℕ
  through : ℕ
  passes : List Pass

/-- Why the success of a call was not recorded. -/
inductive Loss where
  | deadline
  | insert

/-- The store, and what it keeps about the extraction of one session.  The last five
fields are for the specification only. -/
structure State where
  db : DB
  extractedThrough : Option ℕ := none
  attempts : ℤ := 0
  lastAttemptAt : Option ℤ := none
  lastExtractedAt : Option ℤ := none
  poisonedAt : Option ℤ := none
  extractions : List MemoryExtraction := []
  log : List Entry := []
  pass : Pass := {}
  failures : List Pass := []
  abandoned : List Abandonment := []
  lost : List (Chunk × Loss) := []

structure Env where
  storeErr : Option String
  ctxErr : Option String
  backend : Bool
  wait : Option String
  call : Except String (List String)
  now : ℤ

abbrev Run := Prog State Env

def exec (f : State → State × α) : Run (Except String α) :=
  attempt (·.storeErr) fun s _ => f s

def query (f : State → α) : Run (Except String α) := exec fun s => (s, f s)

def update (f : State → State) : Run (Except String Unit) := exec fun s => (f s, ())

def State.called (s : State) (c : Chunk) (answer : Except String (List String)) : State :=
  { s with
    log := .called c answer :: s.log
    pass := { s.pass with calls := c :: s.pass.calls } }

def State.cutBy (s : State) (err : Option String) : State :=
  { s with pass := { s.pass with cut := s.pass.cut || err.isSome } }

/-- Looks for an error that comes from outside: the end of the context, or the error of the
rate limiter's `Wait`. -/
def interrupt (ask : Env → Option String) : Run (Option String) :=
  act fun s e => (s.cutBy (ask e), ask e)

def callAddMemory (c : Chunk) : Run (Except String (List String)) :=
  act fun s e => (s.called c e.call, e.call)

def isRetryable (err : String) : Bool :=
  ["context deadline exceeded", "context canceled", "reading SSE stream", "EOF"].any
    fun part => decide (part.toList <:+: err.toList)

def callAttempts (c : Chunk) (lastErr : String) : ℕ → Run (Except String (List String))
  | 0 => pure (.error lastErr)
  | left + 1 => do
    match ← interrupt (·.ctxErr) with
    | some err => pure (.error err)
    | none =>
      match ← interrupt (·.wait) with
      | some err => pure (.error err)
      | none =>
        match ← callAddMemory c with
        | .ok ids => pure (.ok ids)
        | .error err =>
          if ¬ isRetryable err then pure (.error err)
          else if left = 0 then callAttempts c err left
          else
            -- the pause before the next attempt ends early with the context
            match ← interrupt (·.ctxErr) with
            | some stop => pure (.error stop)
            | none => callAttempts c err left

def callAddMemoryWithRetry (c : Chunk) : Run (Except String (List String)) := callAttempts c "" 2

structure Sent where
  failed : Bool := false
  aborted : Bool := false
  memoriesCreated : ℕ := 0
  errors : List String := []

def extractionRow (toUpper : String → String) (now : ℤ) (i : ℕ) (c : Chunk)
    (answer : Except String (List String)) : MemoryExtraction where
  extractedAt := now
  chunkIndex := i
  chunkMsgUUIDs := c.uuids
  chunkChars := (c.text toUpper).length
  mem0MemoryIDs := answer.toOption.getD []
  error := match answer with
    | .ok _ => none
    | .error err => some err

def Sent.add (sent : Sent) (answer : Except String (List String))
    (recorded : Except String Unit) : Sent :=
  let sent := match answer with
    | .ok ids => { sent with memoriesCreated := sent.memoriesCreated + ids.length }
    | .error err => { sent with failed := true, errors := sent.errors ++ [err] }
  match recorded with
  | .ok () => sent
  | .error err =>
    { sent with failed := true, errors := sent.errors ++ ["provenance insert: " ++ err] }

def State.lose (s : State) (c : Chunk) (why : Loss) : Except String (List String) → State
  | .ok _ => { s with lost := (c, why) :: s.lost }
  | .error _ => s

def expired (c : Chunk) (answer : Except String (List String)) : Run Bool :=
  act fun s e =>
    if e.ctxErr.isSome then ((s.cutBy e.ctxErr).lose c .deadline answer, true) else (s, false)

def insertExtraction (c : Chunk) (answer : Except String (List String)) (row : MemoryExtraction) :
    Run (Except String Unit) :=
  act fun s e =>
    match e.storeErr with
    | none => ({ s with extractions := s.extractions ++ [row] }, .ok ())
    | some err => (s.lose c .insert answer, .error err)

def sendChunks (toUpper : String → String) (now : ℤ) : ℕ → Sent → List Chunk → Run Sent
  | _, sent, [] => pure sent
  | i, sent, c :: chunks => do
    if (← interrupt (·.ctxErr)).isSome then pure { sent with aborted := true }
    else
      let answer ← callAddMemoryWithRetry c
      if ← expired c answer then pure { sent with aborted := true }
      else
        let recorded ← insertExtraction c answer (extractionRow toUpper now i c answer)
        sendChunks toUpper now (i + 1) (sent.add answer recorded) chunks

def getSessionRange (t : Tables) (sessionID : String) (after : ℕ) (limit : ℤ) : List Message :=
  let limit := if limit ≤ 0 then 400 else limit.toNat
  (t.messages.filter fun m => m.sessionID = sessionID ∧ after < m.id).take limit

/-- A uuid a successful call has sent. -/
def covered (extractions : List MemoryExtraction) (uuid : String) : Bool :=
  extractions.any fun r => r.error.isNone && r.chunkMsgUUIDs.contains uuid

def completeExtractPass (throughID : ℕ) (now : ℤ) (s : State) : State :=
  { s with
    extractedThrough := some throughID, lastExtractedAt := some now, attempts := 0
    failures := [] }

def poisonExtractRange (throughID : ℕ) (now : ℤ) (s : State) : State :=
  { s with
    extractedThrough := some throughID, poisonedAt := some now, attempts := 0
    log := .poisoned (s.extractedThrough.getD 0) throughID :: s.log
    failures := []
    abandoned := ⟨s.extractedThrough.getD 0, throughID, s.failures⟩ :: s.abandoned }

def beginExtractAttempt (throughID : ℕ) (fresh : List Message) (now : ℤ) (s : State) : State :=
  { s with lastAttemptAt := some now, pass := ⟨throughID, fresh, [], false⟩ }

def failExtractPass (s : State) : State × ℤ :=
  ({ s with attempts := s.attempts + 1, failures := s.pass :: s.failures }, s.attempts + 1)

inductive Outcome where
  | nothingNew | advancedNoContent | complete | failed | poisoned

structure ExtractResult where
  outcome : Outcome
  throughID : ℕ
  messagesTotal : ℕ := 0
  messagesKept : ℕ := 0
  messagesNew : ℕ := 0
  chunksProcessed : ℕ := 0
  memoriesCreated : ℕ := 0
  errors : List String := []

/-- The end of a pass: over the window when everything was sent and recorded, else one
more attempt is counted, and the window is given up when there have been enough. -/
def settlePass (cfg : Config) (throughID : ℕ) (now : ℤ) (sent : Sent) :
    Run (Except String Outcome) := do
  if sent.failed || sent.aborted then
    match ← exec failExtractPass with
    | .error err => pure (.error err)
    | .ok attempts =>
      if cfg.poisonAfter ≤ attempts then
        match ← update (poisonExtractRange throughID now) with
        | .error err => pure (.error err)
        | .ok () => pure (.ok .poisoned)
      else pure (.ok .failed)
  else
    match ← update (completeExtractPass throughID now) with
    | .error err => pure (.error err)
    | .ok () => pure (.ok .complete)

def freshMessages (cfg : Config) (extractions : List MemoryExtraction) (msgs : List Message) :
    List Message :=
  (msgs.filter cfg.keep).filter fun m => m.uuid = "" || !covered extractions m.uuid

def chunksOf (cfg : Config) (fresh : List Message) : List Chunk :=
  chunkMessages cfg.toUpper cfg.chunkTarget (fresh.map (truncateOversized cfg.maxMessageChars))

def sendFresh (cfg : Config) (throughID : ℕ) (fresh : List Message) (result : ExtractResult) :
    Run (Except String ExtractResult) := do
  let now ← observe (·.now)
  if fresh = [] then
    match ← update (completeExtractPass throughID now) with
    | .error err => pure (.error err)
    | .ok () => pure (.ok { result with outcome := .advancedNoContent })
  else if ¬ (← observe (·.backend)) then pure (.error "mem0 backend not registered")
  else
    match ← update (beginExtractAttempt throughID fresh now) with
    | .error err => pure (.error err)
    | .ok () =>
      let sent ← sendChunks cfg.toUpper now 0 {} (chunksOf cfg fresh)
      match ← settlePass cfg throughID now sent with
      | .error err => pure (.error err)
      | .ok outcome =>
        pure (.ok { result with
          outcome := outcome, chunksProcessed := (chunksOf cfg fresh).length
          memoriesCreated := sent.memoriesCreated, errors := sent.errors })

/-- `Service.Extract`: one pass over the next window of the session. -/
def extract (cfg : Config) : Run (Except String ExtractResult) := do
  if cfg.sessionID = "" then pure (.error "session_id required")
  else
    match ← query fun s => s.db.session cfg.sessionID with
    | .error err => pure (.error ("get session: " ++ err))
    | .ok none => pure (.error "get session: sql: no rows in result set")
    | .ok (some _) =>
      match ← query fun s => s.extractedThrough.getD 0 with
      | .error err => pure (.error ("get extraction state: " ++ err))
      | .ok after =>
        match ← query fun s => getSessionRange s.db.toTables cfg.sessionID after cfg.passLimit with
        | .error err => pure (.error ("get messages: " ++ err))
        | .ok msgs =>
          match msgs.getLast? with
          | none => pure (.ok { outcome := .nothingNew, throughID := after })
          | some last =>
            match ← query fun s => freshMessages cfg s.extractions msgs with
            | .error err => pure (.error ("idempotency check: " ++ err))
            | .ok fresh =>
              sendFresh cfg last.id fresh
                { outcome := .complete, throughID := last.id, messagesTotal := msgs.length
                  messagesKept := (msgs.filter cfg.keep).length, messagesNew := fresh.length }

def passes (cfg : Config) : ℕ → Run Unit
  | 0 => pure ()
  | n + 1 => do
    let _ ← extract cfg
    passes cfg n

/-- What others do to the store: ingests, into this session or another, and the clearing
of old error rows. -/
inductive WorldEvent where
  | ingest (c : IngestCall)
  | pruneErrors (before : ℤ)

def world (svc : Service) : WorldEvent → State → State
  | .ingest c, s => { s with db := (Memory.ingest svc s.db c).1 }
  | .pruneErrors before, s =>
    { s with
      extractions := s.extractions.filter fun r => !(r.error.isSome && r.extractedAt < before) }

end ArcRelay.Extract
