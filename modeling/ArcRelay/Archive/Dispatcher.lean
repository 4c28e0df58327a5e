import ArcRelay.Archive.Queue
import ArcRelay.Lib.Interleave

/-!
# The archive dispatcher

One loop drains the queue (`internal/middleware/archive_dispatcher.go`): it takes a batch
of rows that are due, posts each payload to its URL and removes, reschedules or holds the
row by the answer.  A circuit breaker stops the loop for a while after several failures.
Administrators enqueue, retry, retarget, clear and test at any time.

The HTTP client follows redirects, as Go's `Client.Do` does: after a 301, 302 or 303 the
payload is dropped and a GET is sent, after a 307 or 308 the POST is sent again, and the
caller sees the last answer only.  The dispatcher takes a last answer below 300 for a
delivery, whichever request it answers.
-/

namespace ArcRelay.Archive

open Interleave Json Prog

/-! ### The state -/

/-- The states of the breaker. -/
inductive CircuitState where
  | closed | opened | halfOpen
  deriving DecidableEq

structure Circuit where
  consecutiveFails : ℕ := 0
  cbState : CircuitState := .closed
  cbOpenedAt : ℤ := 0
  cbPauseLevel : ℕ := 0
  deriving DecidableEq

/-- What changes the breaker. -/
inductive Cause where
  | check (now : ℤ)
  | settle (id : ℕ) (ok : Bool) (now : ℤ)
  /-- An administrator resets it, or a test delivery went through. -/
  | reset
  deriving DecidableEq

/-- What happened, for the specification only. -/
inductive Entry where
  | accepted (id : ℕ) (payload : Bytes)
  /-- An endpoint answered a request for a row: a POST with a body, or a GET without. -/
  | answered (id : ℕ) (url : String) (body : Option Bytes) (status : ℕ)
  | cleared (id : ℕ)
  | dequeued
  | posted (id : ℕ) (url : String)
  /-- What became of an attempt with this URL was written to the row. -/
  | written (id : ℕ) (url : String)
  /-- The queue was pointed at a URL; where its rows pointed before, and where those rows
  point that the loop has in hand. -/
  | rewritten (url : String) (rows hand : List (ℕ × String))
  | breaker (cause : Cause) (before after : Circuit)
  deriving DecidableEq

structure State where
  queue : Queue := []
  /-- Ids are random; a new one has not been used before. -/
  nextID : ℕ := 0
  circuit : Circuit := {}
  /-- The rows the loop has read and not yet settled, for the specification only. -/
  hand : List Item := []
  log : List Entry := []

/-- An HTTP answer: the status, and where `Location` points when it has one. -/
structure Answer where
  status : ℕ
  location : Option (Except String String) := none

/-- What a step meets: the clock, answers, errors. -/
structure Env where
  now : ℤ
  storeErr : Option String := none
  net : Except String Answer := .error ""
  stop : Bool := false

/-- A program of the dispatcher. -/
abbrev Run := Prog State Env

/-- What the dispatcher calls that is not modelled: the error for a URL that does not
parse, and the two directions of the encryption of credentials. -/
structure Outside where
  urlError : String → Option String
  encrypt : ℕ → String → Except String String
  decrypt : String → Except String String

def plainOutside : Outside where
  urlError _ := none
  encrypt _ v := .ok v
  decrypt v := .ok v

/-! ### The HTTP client -/

/-- Whether a status redirects, and if so whether the body is sent again. -/
def redirectBehavior (status : ℕ) : Option Bool :=
  if status = 301 ∨ status = 302 ∨ status = 303 then some false
  else if status = 307 ∨ status = 308 then some true
  else none

def State.answered (s : State) (id : ℕ) (url : String) (body : Option Bytes) (status : ℕ) : State :=
  { s with log := .answered id url body status :: s.log }

/-- One request and its answer; a GET has no body. -/
def exchange (id : ℕ) (body : Option Bytes) (url : String) : Run (Except String Answer) :=
  act fun s e =>
    match e.net with
    | .error err => (s, .error err)
    | .ok answer => (s.answered id url body answer.status, .ok answer)

/-- Sends a request and follows redirects, so many at most. -/
def httpDo (id : ℕ) (left : ℕ) (body : Option Bytes) (url : String) : Run (Except String ℕ) := do
  match ← exchange id body url with
  | .error err => pure (.error err)
  | .ok answer =>
    match redirectBehavior answer.status, answer.location with
    | none, _ | some _, none => pure (.ok answer.status)
    | some _, some (.error err) => pure (.error ("failed to parse Location header: " ++ err))
    | some includeBody, some (.ok location) =>
      match left with
      | 0 => pure (.error "stopped after 10 redirects")
      | left + 1 => httpDo id left (if includeBody then body else none) location

/-! ### The loop -/

def State.release (s : State) (id : ℕ) : State :=
  { s with hand := s.hand.filter fun r => r.id ≠ id }

def exec (id : ℕ) (notes : List Entry) (f : ℤ → Queue → Queue) : Run (Except String Unit) :=
  act fun s e =>
    match e.storeErr with
    | none => ({ s.release id with queue := f e.now s.queue, log := notes ++ s.log }, .ok ())
    | some err => (s.release id, .error err)

/-- The row is held, with the error. -/
def hold (item : Item) (errMsg : String) : Run (Except String Unit) :=
  exec item.id [.written item.id item.url] fun now => markHold item.id now errMsg

/-- Collects the rows whose credentials can be decrypted, and holds the others. -/
def decryptAll (out : Outside) : List Item → Run (List Item)
  | [] => pure []
  | r :: rows => do
    match if r.authValue = "" then .ok "" else out.decrypt r.authValue with
    | .error err =>
      let _ ← hold r ("decrypt failed: " ++ err)
      decryptAll out rows
    | .ok authValue =>
      let rest ← decryptAll out rows
      pure ({ r with authValue := authValue } :: rest)

/-- The rows that are read at once. -/
def drainBatchSize : ℕ := 50

def State.dequeue (s : State) (now : ℤ) (limit : ℕ) : State :=
  { s with hand := due s.queue now limit, log := .dequeued :: s.log }

def dequeueDue (out : Outside) (limit : ℕ) : Run (Except String (List Item)) := do
  match ← attempt (·.storeErr) fun s e =>
      (s.dequeue e.now limit, due s.queue e.now limit) with
  | .error err => pure (.error err)
  | .ok rows =>
    let items ← decryptAll out rows
    pure (.ok items)

/-- The pauses between attempts, in seconds. -/
def backoffSchedule : List ℤ := [0, 15, 60, 300, 900, 3600, 21600]

def nextAttemptTime (now attempts : ℤ) : ℤ :=
  now + (backoffSchedule[(attempts + 1).toNat]?).getD 21600

/-- Statuses after which the row is tried again. -/
def isTransient (status : ℕ) : Bool := 500 ≤ status || status == 408 || status == 429

def State.posted (s : State) (item : Item) : State :=
  { s with log := .posted item.id item.url :: s.log }

def later (item : Item) (errMsg : String) : Run (Except String Unit) := do
  let next ← observe fun e => nextAttemptTime e.now item.attempts
  exec item.id [.written item.id item.url] fun now => reschedule item.id next now errMsg

/-- Posts one payload and settles its row; returns whether it counts as delivered. -/
def sendOne (out : Outside) (item : Item) : Run Bool := do
  match out.urlError item.url with
  | some err =>
    let _ ← hold item ("invalid request: " ++ err)
    pure false
  | none =>
    Prog.set fun s => s.posted item
    match ← httpDo item.id 9 (some item.payload) item.url with
    | .error err =>
      let _ ← later item ("network error: " ++ err)
      pure false
    | .ok status =>
      if status < 300 then
        let _ ← exec item.id [] fun _ => markDelivered item.id
        pure true
      else if isTransient status then
        let _ ← later item s!"HTTP {status}"
        pure false
      else
        let _ ← hold item s!"HTTP {status}"
        pure false

/-- The failures that open the breaker. -/
def cbFailThreshold : ℕ := 5

/-- The pauses, each longer than the one before. -/
def cbPauseDurations : List ℤ := [60, 300, 900]

/-- Whether the breaker lets a batch through; an open one becomes half-open when its
pause is over. -/
def Circuit.check (c : Circuit) (now : ℤ) : Circuit × Bool :=
  match c.cbState with
  | .closed | .halfOpen => (c, true)
  | .opened =>
    let pause := (cbPauseDurations[min c.cbPauseLevel 2]?).getD 0
    if pause ≤ now - c.cbOpenedAt then ({ c with cbState := .halfOpen }, true) else (c, false)

/-- The breaker after a delivery, and whether the batch goes on. -/
def Circuit.settle (c : Circuit) (now : ℤ) (ok : Bool) : Circuit × Bool :=
  if ok then
    let c := { c with consecutiveFails := 0 }
    if c.cbState = .halfOpen then ({ c with cbState := .closed, cbPauseLevel := 0 }, true)
    else (c, true)
  else
    let c := { c with consecutiveFails := c.consecutiveFails + 1 }
    if c.cbState = .halfOpen then
      let level := if c.cbPauseLevel < 2 then c.cbPauseLevel + 1 else c.cbPauseLevel
      ({ c with cbState := .opened, cbOpenedAt := now, cbPauseLevel := level }, false)
    else if cbFailThreshold ≤ c.consecutiveFails then
      ({ c with cbState := .opened, cbOpenedAt := now }, false)
    else (c, true)

def State.breaker (s : State) (cause : Cause) (after : Circuit) : State :=
  { s with circuit := after, log := .breaker cause s.circuit after :: s.log }

def State.stopped (s : State) : State := { s with hand := [] }

def State.check (s : State) (now : ℤ) : State × Bool :=
  (s.breaker (.check now) (s.circuit.check now).1, (s.circuit.check now).2)

def State.settle (s : State) (id : ℕ) (ok : Bool) (now : ℤ) : State × Bool :=
  let s' := s.breaker (.settle id ok now) (s.circuit.settle now ok).1
  if (s.circuit.settle now ok).2 then (s', true) else (s'.stopped, false)

/-- The rows of a batch, one after the other. -/
def sendAll (out : Outside) : List Item → Run Unit
  | [] => pure ()
  | item :: items => do
    if ← act fun s e => if e.stop then (s.stopped, true) else (s, false) then pure ()
    else
      let ok ← sendOne out item
      if ← act fun s e => s.settle item.id ok e.now then sendAll out items else pure ()

/-- One round of the loop. -/
def drainDue (out : Outside) : Run Unit := do
  if ← act fun s e => s.check e.now then
    match ← dequeueDue out drainBatchSize with
    | .error _ => pure ()
    | .ok items => sendAll out items
  else pure ()

/-- So many rounds. -/
def drains (out : Outside) : ℕ → Run Unit
  | 0 => pure ()
  | n + 1 => do
    drainDue out
    drains out n

/-! ### Administrators -/

/-- Where payloads go, and with which credential. -/
structure ArchiveConfig where
  url : String
  authType : String
  authValue : String
  apiKeyHeader : String

/-- What happens beside the loop; a statement with an error has no effect. -/
inductive WorldEvent where
  | enqueue (payload : Bytes) (cfg : ArchiveConfig) (serverID : String) (nonce : ℕ) (now : ℤ)
  | retryHeld (now : ℤ)
  | rewriteHeldDelivery (cfg : ArchiveConfig) (nonce : ℕ) (now : ℤ)
  | clearHeld
  | resetCircuit
  /-- A test delivery was answered below 300. -/
  | sendTest

def storedAuth (out : Outside) (nonce : ℕ) (authValue : String) : Except String String :=
  if authValue = "" then .ok "" else out.encrypt nonce authValue

def resetCircuit (c : Circuit) : Circuit :=
  { c with cbState := .closed, cbPauseLevel := 0, consecutiveFails := 0 }

/-- Where each row points. -/
def destinations (rows : List Item) : List (ℕ × String) := rows.map fun r => (r.id, r.url)

/-- What happens beside the loop. -/
def world (out : Outside) : WorldEvent → State → State
  | .enqueue payload cfg serverID nonce now, s =>
    match storedAuth out nonce cfg.authValue with
    | .error _ => s
    | .ok authValue =>
      let header := if cfg.apiKeyHeader = "" then "X-API-Key" else cfg.apiKeyHeader
      { s with
        queue := enqueue s.nextID serverID payload cfg.url cfg.authType authValue header now s.queue
        nextID := s.nextID + 1
        log := .accepted s.nextID payload :: s.log }
  | .retryHeld now, s => { s with queue := retryHeld now s.queue }
  | .rewriteHeldDelivery cfg nonce now, s =>
    match storedAuth out nonce cfg.authValue with
    | .error _ => s
    | .ok authValue =>
      { s with
        queue := rewriteHeldDelivery cfg.url cfg.authType authValue cfg.apiKeyHeader now s.queue
        log := .rewritten cfg.url (destinations s.queue) (destinations s.hand) :: s.log }
  | .clearHeld, s =>
    { s with
      queue := clearHeld s.queue
      log := (s.queue.filter fun r => r.status = .hold).map (fun r => .cleared r.id) ++ s.log }
  | .resetCircuit, s => s.breaker .reset (resetCircuit s.circuit)
  | .sendTest, s =>
    if s.circuit.cbState = .closed then s else s.breaker .reset (resetCircuit s.circuit)

end ArcRelay.Archive
