import ArcRelay.Lib.Interleave
import ArcRelay.Lib.Json
import ArcRelay.Lib.Lines

/-!
# The transcript watcher

The watcher of `internal/cli/sync/memory.go` reads a growing transcript file from
a saved watermark, cuts what it has read at newlines and posts the pieces to the
relay.  A piece the relay takes, or that can never be taken, moves the watermark;
anything else leaves it for the next scan.

The programs below follow one transcript.  The file grows, the other transcripts
of the same watcher save the shared state file, and the relay changes between any
two of their steps; what the relay answers, and which reads and saves fail, is the
environment's choice.  Every post and every skipped record is written to a log,
which no program reads.

* `chunkEnd`, `chunks`: where a scan cuts the file.
* `chunkEnd_progress`: chunks are whole records.
-/

namespace ArcRelay.Watcher

open Interleave Json Lines List Prog

def newline : UInt8 := 0x0a

/-! ### The watermark of a transcript -/

abbrev Counters := List (String × ℤ)

def addCount (m : Counters) (name : String) (n : ℤ) : Counters :=
  match m with
  | [] => [(name, n)]
  | (k, v) :: m => if k = name then (k, v + n) :: m else (k, v) :: addCount m name n

structure FileState where
  bytesSeen : ℕ := 0
  mtime : ℤ := 0
  rawCwd : String := ""
  /-- Why the file is no longer read; empty while it is. -/
  quarantined : String := ""
  counters : Counters := []

def FileState.count (fs : FileState) (name : String) : FileState :=
  { fs with counters := addCount fs.counters name 1 }

structure MemoryWatcher where
  platform : String := ""
  maxChunkBytes : ℤ := 0
  recordCeiling : ℤ := 0
  quiescenceWindow : ℤ := 0

def maxIngestChunk : ℕ := 4 * 2 ^ 20

def maxRecordBytes : ℕ := 64 * 2 ^ 20

def rawCwdHeadBytes : ℕ := 64 * 2 ^ 10

namespace MemoryWatcher

def platformKey (w : MemoryWatcher) : String :=
  if w.platform = "" then "claude-code" else w.platform

def chunkLimit (w : MemoryWatcher) : ℕ :=
  if 0 < w.maxChunkBytes then w.maxChunkBytes.toNat else maxIngestChunk

def ceiling (w : MemoryWatcher) : ℕ :=
  if 0 < w.recordCeiling then w.recordCeiling.toNat else maxRecordBytes

end MemoryWatcher

/-! ### What is posted and what comes back -/

structure IngestRequest where
  sessionID : String
  projectDir : String
  filePath : String
  fileMtime : ℤ
  bytesSeen : ℕ
  platform : String
  jsonl : Bytes
  rawCwd : String
  clientCounters : Counters

structure IngestResponse where
  messagesAdded : ℤ := 0
  rejectedRows : ℤ := 0
  deriving DecidableEq

/-- What the HTTP client hands back: no answer at all, or a status with the
answer's body, when that can be decoded. -/
inductive HttpAnswer where
  | failed
  | answered (status : ℕ) (body : Option IngestResponse)

inductive IngestError where
  | transport
  | http (status : ℕ)
  deriving DecidableEq

/-- How the client's outcome is read: a status from 400 on is an error, and a body
that cannot be decoded still means that the bytes were taken. -/
def postIngest : HttpAnswer → Except IngestError IngestResponse
  | .failed => .error .transport
  | .answered status body => if 400 ≤ status then .error (.http status) else .ok (body.getD {})

/-! ### Cutting at newlines -/

def splitAfter (unit : Bytes) (i : ℕ) : Bytes × Bytes := (unit.take (i + 1), unit.drop (i + 1))

def halveAtNewline (unit : Bytes) : Bytes × Bytes :=
  let mid := unit.length / 2
  match lastIdx newline (unit.take mid) with
  | none =>
    match firstIdx newline (unit.drop mid) with
    | some j => if mid + j + 1 < unit.length then splitAfter unit (mid + j) else (unit, [])
    | none => (unit, [])
  | some i =>
    if i + 1 = unit.length then
      match firstIdx newline (unit.drop mid) with
      | some j => if mid + j + 1 < unit.length then splitAfter unit (mid + j) else splitAfter unit i
      | none => splitAfter unit i
    else splitAfter unit i

/-- The exclusive end of the chunk that starts at `off`: as many whole records as
fit in `max` bytes, or one that does not fit. -/
def chunkEnd (b : Bytes) (off max : ℕ) : ℕ :=
  if b.length - off ≤ max then b.length
  else
    match lastIdx newline ((b.drop off).take max) with
    | some i => off + i + 1
    | none =>
      match firstIdx newline (b.drop off) with
      | some i => off + i + 1
      | none => b.length

/-- **A unit of several records is cut between two of them.** -/
theorem halveAtNewline_spec {unit : Bytes} (h : 1 < unit.count newline) :
    ∃ i, i + 1 < unit.length ∧ unit[i]? = some newline ∧
      halveAtNewline unit = splitAfter unit i := by
  simp only [halveAtNewline]
  cases hlast : lastIdx newline (unit.take (unit.length / 2)) with
  | some i =>
    have hget := getElem?_of_lastIdx hlast
    have hi := lt_length_of_getElem? hget
    rw [length_take] at hi
    rw [getElem?_take_of_lt (by omega)] at hget
    -- the newline lies in the first half, so it cannot be the last byte
    have hne : i + 1 ≠ unit.length := by omega
    exact ⟨i, by omega, hget, by simp only [hne, if_false]⟩
  | none =>
    -- all newlines are in the second half, and the first of them is not the last
    have hcount : 1 < (unit.drop (unit.length / 2)).count newline := by
      rw [← take_append_drop (unit.length / 2) unit, count_append,
        count_eq_zero_of_not_mem (lastIdx_eq_none.mp hlast)] at h
      omega
    cases hj : firstIdx newline (unit.drop (unit.length / 2)) with
    | none =>
      rw [count_eq_zero_of_not_mem (firstIdx_eq_none.mp hj)] at hcount
      omega
    | some j => ?_
    have hlt := firstIdx_lt_of_count hj hcount
    have hget := getElem?_of_firstIdx hj
    rw [length_drop] at hlt
    rw [getElem?_drop] at hget
    have hlt' : unit.length / 2 + j + 1 < unit.length := by omega
    exact ⟨unit.length / 2 + j, hlt', hget, by simp only [hlt', if_true]⟩

theorem lt_chunkEnd {b : Bytes} {off max : ℕ} (h : off < b.length) : off < chunkEnd b off max := by
  unfold chunkEnd
  split
  · exact h
  split
  · omega
  · split <;> omega

/-- **A chunk of a delta that ends in a newline does too.** -/
theorem chunkEnd_spec {b : Bytes} {off max : ℕ} (hb : Ends newline b) (h : off < b.length) :
    chunkEnd b off max ≤ b.length ∧
      Ends newline ((b.drop off).take (chunkEnd b off max - off)) := by
  have hdrop : Ends newline (b.drop off) := hb.drop h
  have hwhole : (b.drop off).take (b.length - off) = b.drop off := by
    rw [← length_drop, take_length]
  have hcut : ∀ i, (b.drop off)[i]? = some newline → off + i + 1 ≤ b.length ∧
      Ends newline ((b.drop off).take (off + i + 1 - off)) := by
    intro i hi
    have hlt := lt_length_of_getElem? hi
    rw [length_drop] at hlt
    refine ⟨by omega, ?_⟩
    rw [show off + i + 1 - off = i + 1 by omega]
    exact ends_take hi
  unfold chunkEnd
  -- the rest as a whole, up to the last newline within the limit, or up to the first after it
  split
  · exact ⟨le_rfl, by rw [hwhole]; exact hdrop⟩
  split
  · next i hi =>
    have hget := getElem?_of_lastIdx hi
    have hlt := lt_length_of_getElem? hget
    rw [length_take] at hlt
    rw [getElem?_take_of_lt (by omega)] at hget
    exact hcut i hget
  · split
    · next i hi => exact hcut i (getElem?_of_firstIdx hi)
    · exact ⟨le_rfl, by rw [hwhole]; exact hdrop⟩

theorem aligned_chunkEnd {b : Bytes} {off max : ℕ} (hb : Ends newline b) (h : off < b.length) :
    Aligned newline b (chunkEnd b off max) := by
  obtain ⟨hle, hends⟩ : chunkEnd b off max ≤ b.length ∧ Ends newline _ := chunkEnd_spec hb h
  have hpos : off < chunkEnd b off max := lt_chunkEnd h
  have hal := At.aligned_end at_take_drop hends
  rwa [length_take, length_drop, min_eq_left (by omega),
    show off + (chunkEnd b off max - off) = chunkEnd b off max by omega] at hal

theorem chunkEnd_size {b : Bytes} {off : ℕ} (hb : Ends newline b) (h : off < b.length) (max : ℕ) :
    chunkEnd b off max ≤ off + max ∨ off + max < chunkEnd b off max ∧
      ((b.drop off).take (chunkEnd b off max - off)).count newline = 1 := by
  unfold chunkEnd
  split
  · exact .inl (by omega)
  split
  · next i hi =>
    have hlt := lt_length_of_getElem? (getElem?_of_lastIdx hi)
    rw [length_take] at hlt
    exact .inl (by omega)
  next hnone =>
  split
  · next i hi =>
    -- the first newline lies behind the limit, since none lies before it
    have hle : max ≤ i := by
      by_contra hlt
      refine lastIdx_eq_none.mp hnone (mem_of_getElem? (i := i) ?_)
      rw [getElem?_take_of_lt (by omega)]
      exact getElem?_of_firstIdx hi
    rw [show off + i + 1 - off = i + 1 by omega]
    exact .inr ⟨by omega, count_take_firstIdx hi⟩
  · next hno => exact absurd (hb.drop h).mem (firstIdx_eq_none.mp hno)

/-- The chunks from `off` on, as the loop of `ingestDelta` cuts them. -/
def chunks (b : Bytes) (max off : ℕ) : List Bytes :=
  if _h : off < b.length then
    (b.drop off).take (chunkEnd b off max - off) :: chunks b max (chunkEnd b off max)
  else []
termination_by b.length - off
decreasing_by
  have : off < chunkEnd b off max := lt_chunkEnd _h
  omega

theorem chunks_spec {b : Bytes} (hb : Ends newline b) (max off : ℕ) :
    (chunks b max off).flatten = b.drop off ∧ ∀ c ∈ chunks b max off, Ends newline c ∧
      (c.length ≤ max ∨ max < c.length ∧ c.count newline = 1) := by
  fun_induction chunks b max off with
  | case2 off hge => simp [drop_eq_nil_of_le (Nat.le_of_not_lt hge)]
  | case1 off hlt ih => ?_
  obtain ⟨hflat, hsize⟩ := ih
  obtain ⟨hle, hends⟩ : chunkEnd b off max ≤ b.length ∧ Ends newline _ := chunkEnd_spec hb hlt
  have hpos : off < chunkEnd b off max := lt_chunkEnd hlt
  refine ⟨?_, forall_mem_cons.mpr ⟨⟨hends, ?_⟩, hsize⟩⟩
  · rw [flatten_cons, hflat]
    nth_rewrite 2 [show chunkEnd b off max = off + (chunkEnd b off max - off) by omega]
    rw [← drop_drop, take_append_drop]
  rw [length_take, length_drop]
  rcases chunkEnd_size hb hlt max with hle' | ⟨hgt, hone⟩
  · exact .inl (by omega)
  · exact .inr ⟨by omega, hone⟩

/-- **Chunks are whole records**: from an offset between two records the next chunk goes on to
another, and the chunks from the start on are the text, each within the limit or a single record
that is not. -/
theorem chunkEnd_progress {b : Bytes} (hb : Ends newline b) (max : ℕ) :
    (∀ off, off < b.length → Aligned newline b off → off < chunkEnd b off max ∧
        chunkEnd b off max ≤ b.length ∧ Aligned newline b (chunkEnd b off max)) ∧
      (chunks b max 0).flatten = b ∧ ∀ c ∈ chunks b max 0, Ends newline c ∧
        (c.length ≤ max ∨ max < c.length ∧ c.count newline = 1) :=
  ⟨fun _ hlt _ => ⟨lt_chunkEnd hlt, (chunkEnd_spec hb hlt).1, aligned_chunkEnd hb hlt⟩,
    chunks_spec hb max 0⟩

theorem chunkEnd_progress_two :
    let b : Bytes := [0x61, newline, 0x62, 0x63, newline]
    Ends newline b ∧ chunks b 3 0 = [[0x61, newline], [0x62, 0x63, newline]] ∧
      (chunks b 3 0).flatten = b := by
  intro b
  have hb : Ends newline b := by decide
  refine ⟨hb, ?_, (chunkEnd_progress hb 3).2.1⟩
  simp [chunks, chunkEnd, lastIdx, newline, b]

/-! ### The state the watcher runs in -/

/-- What the log keeps.  Nothing reads it: it is there to be reasoned about. -/
inductive Entry where
  /-- A body was posted for the bytes from `off` on, with this outcome. -/
  | posted (off : ℕ) (req : IngestRequest) (outcome : Except IngestError IngestResponse)
  /-- The record of `len` bytes at `off` is over the ceiling and was not sent. -/
  | skipped (off len : ℕ)
  /-- The extraction timer of the session was set. -/
  | scheduled (sessionID : String)

structure State (ρ : Type) where
  content : Bytes
  modTime : ℤ
  fs : FileState
  saved : FileState
  relay : ρ
  log : List Entry

structure Env (ν : Type) where
  readOk : Bool
  saveOk : Bool
  net : ν

/-- What happens between two steps of the watcher. -/
inductive WorldEvent (η : Type) where
  | append (bytes : Bytes) (modTime : ℤ)
  /-- Another transcript's progress saves the state file, which holds this one's
  watermark too. -/
  | flush
  | relay (h : η)

variable {ρ ν η : Type}

def world (relayWorld : η → ρ → ρ) : WorldEvent η → State ρ → State ρ
  | .append bytes t, s => { s with content := s.content ++ bytes, modTime := t }
  | .flush, s => { s with saved := s.fs }
  | .relay h, s => { s with relay := relayWorld h s.relay }

/-- Reads up to `n` bytes at `offset`; fewer only at the end of the file. -/
def readWindow (content : Bytes) (offset n : ℕ) : Bytes := (content.drop offset).take n

/-- The length of the line that starts at `offset`, and whether it is complete. -/
def measureLine (content : Bytes) (offset : ℕ) : ℕ × Bool :=
  match firstIdx newline (content.drop offset) with
  | some i => (i + 1, true)
  | none => (content.length - offset, false)

/-- The working directory of the first record in the head that names one. -/
def readRawCwd (content : Bytes) : String :=
  let cwdOf (line : Bytes) : Option String := do
    let ms ← members line
    let (cwd, ok) := stringField "cwd" ms
    if ok ∧ cwd ≠ "" then some cwd else none
  (((readWindow content 0 rawCwdHeadBytes).splitOn newline).findSome? cwdOf).getD ""

def basename (path : List Char) : List Char :=
  match lastIdx '/' path with
  | some i => path.drop (i + 1)
  | none => path

def dirname (path : List Char) : List Char :=
  match lastIdx '/' path with
  | some i => path.take i
  | none => ['.']

/-- The session a transcript belongs to: its file name without `.jsonl`. -/
def sessionOf (path : String) : String :=
  let name := basename path.toList
  String.ofList (if ".jsonl".toList <:+ name then name.take (name.length - 6) else name)

def decodeProjectDir (escaped : List Char) : String :=
  let stripped := match escaped with
    | '-' :: r => r
    | r => r
  String.ofList ('/' :: stripped.map fun c => if c = '-' then '/' else c)

def request (w : MemoryWatcher) (path : String) (fs : FileState) (unit : Bytes) (off : ℕ)
    (mtime : ℤ) : IngestRequest where
  sessionID := sessionOf path
  projectDir := decodeProjectDir (basename (dirname path.toList))
  filePath := path
  fileMtime := mtime
  bytesSeen := off + unit.length
  platform := w.platformKey
  jsonl := unit
  rawCwd := fs.rawCwd
  clientCounters := fs.counters

/-! ### The programs -/

inductive Outcome where
  | done
  | saveFailed
  /-- The loop was cut off; `scanFile` never ends so. -/
  | spent
  deriving DecidableEq

section

variable (relay : ρ → IngestRequest → ν → ρ × HttpAnswer) (w : MemoryWatcher) (path : String)

def modifyFs (f : FileState → FileState) : Prog (State ρ) (Env ν) Unit :=
  Prog.set fun s => { s with fs := f s.fs }

/-- Writes the state file: all of it or nothing. -/
def saveState : Prog (State ρ) (Env ν) Bool :=
  act fun s e => if e.saveOk then ({ s with saved := s.fs }, true) else (s, false)

def post (unit : Bytes) (off : ℕ) (mtime : ℤ) :
    Prog (State ρ) (Env ν) (Except IngestError IngestResponse) :=
  act fun s e =>
    let req := request w path s.fs unit off mtime
    let answer := relay s.relay req e.net
    let outcome := postIngest answer.2
    ({ s with relay := answer.1, log := .posted off req outcome :: s.log }, outcome)

/-- Posts one newline-aligned unit that starts at `off`.  Returns whether its
bytes are settled, and how many messages the relay added. -/
def sendUnit (unit : Bytes) (off : ℕ) (mtime : ℤ) : Prog (State ρ) (Env ν) (Bool × ℤ) := do
  match ← post relay w path unit off mtime with
  | .ok resp =>
    if 0 < resp.rejectedRows then
      modifyFs fun fs =>
        { fs with counters := addCount fs.counters "rejected_records" resp.rejectedRows }
    pure (true, resp.messagesAdded)
  | .error .transport => pure (false, 0)
  | .error (.http status) =>
    if status = 413 then
      -- a refused unit of several records is retried in two halves
      if _h : 1 < unit.count newline then
        let (okA, nA) ← sendUnit (halveAtNewline unit).1 off mtime
        if !okA then pure (false, 0)
        else
          let (okB, nB) ← sendUnit (halveAtNewline unit).2 (off + (halveAtNewline unit).1.length)
            mtime
          pure (okB, nA + nB)
      else
        modifyFs (·.count "skipped_records")
        pure (true, 0)
    else if status = 409 then
      modifyFs fun fs => { fs with quarantined := "ownership_conflict" }.count "ownership_conflicts"
      pure (false, 0)
    else pure (false, 0)
termination_by unit.length
decreasing_by
  all_goals
    obtain ⟨i, hi, -, heq⟩ := halveAtNewline_spec _h
    simp only [heq, splitAfter, length_take, length_drop]
    omega

def scheduleQuiescenceExtract : Prog (State ρ) (Env ν) Unit :=
  Prog.set fun s =>
    if w.quiescenceWindow ≤ 0 then s else { s with log := .scheduled (sessionOf path) :: s.log }

/-- The loop of `ingestDelta` from `off` on. -/
def ingestLoop (delta : Bytes) (base : ℕ) (mtime : ℤ) (off : ℕ) (messagesAdded : ℤ)
    (advanced : Bool) : Prog (State ρ) (Env ν) (Bool × Outcome) :=
  let finish (messagesAdded : ℤ) (advanced : Bool) : Prog (State ρ) (Env ν) (Bool × Outcome) := do
    if 0 < messagesAdded then scheduleQuiescenceExtract w path
    pure (advanced, .done)
  if _h : off < delta.length then do
    let stop := chunkEnd delta off w.chunkLimit
    let (settled, added) ←
      sendUnit relay w path ((delta.drop off).take (stop - off)) (base + off) mtime
    if !settled then
      -- a quarantine must survive a restart, or the same bytes are sent for ever
      if (← Prog.get (·.fs.quarantined)) ≠ "" then
        if !(← saveState) then return (advanced, .saveFailed)
      return (advanced, .done)
    modifyFs fun fs => { fs with bytesSeen := base + stop, mtime := mtime }
    if !(← saveState) then return (true, .saveFailed)
    if (← Prog.get (·.fs.quarantined)) ≠ "" then finish (messagesAdded + added) true
    else ingestLoop delta base mtime stop (messagesAdded + added) true
  else finish messagesAdded advanced
termination_by delta.length - off
decreasing_by
  have : off < chunkEnd delta off w.chunkLimit := lt_chunkEnd _h
  omega

/-- Posts a delta in newline-aligned chunks and moves the watermark past each one
that is settled.  Returns whether the watermark moved. -/
def ingestDelta (delta : Bytes) (mtime : ℤ) : Prog (State ρ) (Env ν) (Bool × Outcome) := do
  let base ← Prog.get (·.fs.bytesSeen)
  ingestLoop relay w path delta base mtime 0 0 false

/-- Sends a delta and goes on with the file only if the watermark has moved and the
file is still read. -/
def ingestThen (delta : Bytes) (mtime : ℤ) (rest : Prog (State ρ) (Env ν) Outcome) :
    Prog (State ρ) (Env ν) Outcome := do
  let (advanced, outcome) ← ingestDelta relay w path delta mtime
  if outcome ≠ .done then return outcome
  if !advanced || (← Prog.get (·.fs.quarantined)) ≠ "" then return .done
  rest

/-- The file has nothing more to read now: notes its modification time. -/
def settleMtime (mtime : ℤ) : Prog (State ρ) (Env ν) Outcome := do
  modifyFs fun fs => { fs with mtime := mtime }
  if ← saveState then pure .done else pure .saveFailed

/-- Reads the unseen part of the transcript in windows of at most the chunk limit.
A line that does not fit in a window is sent on its own, or skipped when it is over
the ceiling.  The first argument bounds the number of rounds. -/
def drainFile (size : ℕ) (mtime : ℤ) : ℕ → Prog (State ρ) (Env ν) Outcome
  | 0 => pure .spent
  | fuel + 1 => do
    let seen ← Prog.get (·.fs.bytesSeen)
    if size ≤ seen then return .done
    let read (n : ℕ) : Prog (State ρ) (Env ν) (Option Bytes) :=
      act fun s e => (s, if e.readOk then some (readWindow s.content seen n) else none)
    match ← read w.chunkLimit with
    | none => return .done
    | some window =>
      if window = [] then return .done
      match lastIdx newline window with
      -- only complete lines are sent: the file may be in the middle of an append
      | some cut =>
        ingestThen relay w path (window.take (cut + 1)) mtime (drainFile size mtime fuel)
      | none =>
        if window.length < w.chunkLimit then settleMtime mtime
        else
          let measured ← act fun s e =>
            (s, if e.readOk then some (measureLine s.content seen) else none)
          match measured with
          | none => return .done
          | some (_, false) => settleMtime mtime
          | some (lineLen, true) =>
            if w.ceiling < lineLen then
              Prog.set fun s =>
                { s with
                  fs := { s.fs.count "skipped_records" with
                    bytesSeen := s.fs.bytesSeen + lineLen, mtime := mtime }
                  log := .skipped s.fs.bytesSeen lineLen :: s.log }
              if ← saveState then drainFile size mtime fuel else return .saveFailed
            else
              match ← read lineLen with
              | none => return .done
              | some line => ingestThen relay w path line mtime (drainFile size mtime fuel)

def scanFile : Prog (State ρ) (Env ν) Outcome := do
  let (size, mtime) ← Prog.get fun s => (s.content.length, s.modTime)
  let fs ← Prog.get (·.fs)
  if fs.quarantined ≠ "" then return .done
  if size ≤ fs.bytesSeen && mtime ≤ fs.mtime then return .done
  if fs.rawCwd = "" then
    act fun s e =>
      (if e.readOk then { s with fs := { s.fs with rawCwd := readRawCwd s.content } } else s, ())
  drainFile relay w path size mtime (size + 1)

def scans : ℕ → Prog (State ρ) (Env ν) Unit
  | 0 => pure ()
  | n + 1 => do
    let _ ← scanFile relay w path
    scans n

end

end ArcRelay.Watcher
