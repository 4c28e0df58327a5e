import ArcRelay.Lib.Interleave
import Mathlib.Data.Int.Notation
import Mathlib.Logic.Function.Basic

/-!
# Authorization of a device

`arc-sync` starts an authorization and polls for an API key, while a user approves or denies
it in a browser (`internal/web/device_auth.go`).  Requests for authorization are kept in a
map under a lock, but what the map holds are pointers: a handler that has got a request out
of the map reads its status and its key later, without the lock, and a request that was
removed from the map is still there for whoever has got it before.

So the requests are kept in a heap here, the map is a list of places in it, and each
critical section, each read outside of one and each statement is one step.  Random device
codes do not repeat, which is a field of `Tools`.  The page a browser gets only reads, and is
left out.
-/

namespace ArcRelay.Device

open Interleave Prog

/-- The states of a request. -/
inductive Status where
  | pending | approved | denied
  deriving DecidableEq

/-- A request that a device has started. -/
structure DeviceAuthRequest where
  deviceCode : String
  userCode : String
  createdAt : ℤ
  expiresAt : ℤ
  status : Status := .pending
  apiKey : String := ""

/-- A key, with its owner and its profile. -/
structure DeviceKey where
  rawKey : String
  userID : String
  name : String
  profileID : Option String

/-- What happened, for the specification only: the number of the handler, and the place of
the request. -/
inductive Entry where
  /-- A post has seen the request pending. -/
  | passed (i ref : ℕ)
  /-- No key could be created. -/
  | failed (i ref : ℕ)
  | keyed (i ref : ℕ) (rawKey : String)
  | approved (i ref : ℕ)
  | denied (i ref : ℕ)
  /-- A poll has found the request pending, and has left it in the map. -/
  | waited (i ref : ℕ)
  /-- A poll has removed the request from the map. -/
  | taken (i ref : ℕ)
  | saw (i ref : ℕ) (status : Status)
  | delivered (i ref : ℕ) (rawKey : String)
  deriving DecidableEq

/-- The requests in memory, the keys, and the history. -/
structure State where
  heap : List DeviceAuthRequest := []
  /-- The map, as places in the heap; its keys are the device codes. -/
  requests : List ℕ := []
  keys : List DeviceKey := []
  log : List Entry := []

/-- What a step meets: the clock, random values, errors. -/
structure Env where
  now : ℤ := 0
  storeErr : Option String := none
  deviceCodeErr : Option String := none
  userCode : Except String String := .ok ""
  uuid : String := ""
  defaultProfileID : Option String := none
  nonce : Except String String := .ok ""

/-- A handler over the state. -/
abbrev Run := Prog State Env

/-- The address of the relay, and device codes that do not repeat. -/
structure Tools where
  baseURL : String
  deviceCode : ℕ → String
  deviceCode_injective : Function.Injective deviceCode

/-- The answers of the handlers. -/
inductive Outcome where
  | started (deviceCode userCode verificationURL : String)
  | httpError (status : ℕ) (error : String)
  | page (error : String)
  | redirect (url : String)
  | denied
  | pollError (error : String)
  | apiKey (rawKey : String)
  deriving DecidableEq

/-- The request at a place of the heap. -/
def State.request (s : State) (ref : ℕ) : DeviceAuthRequest :=
  (s.heap[ref]?).getD ⟨"", "", 0, 0, .pending, ""⟩

/-- The place of a request in the map. -/
def State.lookup (s : State) (deviceCode : String) : Option ℕ :=
  s.requests.find? fun ref => (s.request ref).deviceCode = deviceCode

section

variable (tools : Tools) (i : ℕ)

/-! ### The store -/

/-- Five minutes. -/
def lifetime : ℤ := 5 * 60

/-- A new request, in the map and pending. -/
def create : Run (Except String DeviceAuthRequest) :=
  act fun s e =>
    match e.deviceCodeErr, e.userCode with
    | some err, _ => (s, .error ("generating device code: " ++ err))
    | none, .error err => (s, .error ("generating user code: " ++ err))
    | none, .ok userCode =>
      let req : DeviceAuthRequest :=
        { deviceCode := tools.deviceCode s.heap.length
          userCode := userCode
          createdAt := e.now
          expiresAt := e.now + lifetime }
      ({ s with heap := s.heap ++ [req], requests := s.heap.length :: s.requests }, .ok req)

/-- The request with a code, unless it has expired. -/
def get (deviceCode : String) : Run (Option ℕ) :=
  act fun s e =>
    match s.lookup deviceCode with
    | none => (s, none)
    | some ref => (s, if (s.request ref).expiresAt < e.now then none else some ref)

/-- A post looks at the status. -/
def isPending (ref : ℕ) : Run Bool :=
  act fun s _ =>
    if (s.request ref).status = .pending then ({ s with log := .passed i ref :: s.log }, true)
    else (s, false)

/-- The key is put into the request with the code, if it is still in the map. -/
def approve (deviceCode rawKey : String) : Run Unit :=
  act fun s _ =>
    match s.lookup deviceCode with
    | none => (s, ())
    | some ref =>
      ({ s with
          heap := s.heap.modify ref fun r => { r with status := .approved, apiKey := rawKey }
          log := .approved i ref :: s.log }, ())

def deny (ref : ℕ) (deviceCode : String) : Run Unit :=
  act fun s _ =>
    match s.lookup deviceCode with
    | none => ({ s with log := .denied i ref :: s.log }, ())
    | some ref' =>
      ({ s with
          heap := s.heap.modify ref' fun r => { r with status := .denied }
          log := .denied i ref :: s.log }, ())

/-- Returns the request of a device code, and removes it from the map unless it is
pending. -/
def consume (deviceCode : String) : Run (Option ℕ) :=
  act fun s e =>
    match s.lookup deviceCode with
    | none => (s, none)
    | some ref =>
      if (s.request ref).expiresAt < e.now then (s, none)
      else if (s.request ref).status = .pending then
        ({ s with log := .waited i ref :: s.log }, some ref)
      else
        ({ s with
            requests := s.requests.filter fun ref => (s.request ref).deviceCode ≠ deviceCode
            log := .taken i ref :: s.log }, some ref)

def readStatus (ref : ℕ) : Run Status :=
  act fun s _ =>
    ({ s with log := .saw i ref (s.request ref).status :: s.log }, (s.request ref).status)

def deliver (ref : ℕ) : Run String :=
  act fun s _ =>
    ({ s with log := .delivered i ref (s.request ref).apiKey :: s.log }, (s.request ref).apiKey)

def createAPIKey (ref : ℕ) (userID : String) (profileID : Option String) : Run (Option String) :=
  act fun s e =>
    match e.storeErr with
    | some _ => ({ s with log := .failed i ref :: s.log }, none)
    | none =>
      ({ s with
          keys := ⟨e.uuid, userID, "arc-sync device auth", profileID⟩ :: s.keys
          log := .keyed i ref e.uuid :: s.log }, some e.uuid)

/-! ### The handlers -/

/-- The start, the limit on requests apart. -/
def handleDeviceAuthStart : Run Outcome := do
  match ← create tools with
  | .error _ => pure (.httpError 500 "internal error")
  | .ok req =>
    let verificationURL := tools.baseURL ++ "/auth/device?code=" ++ req.userCode
    pure (.started req.deviceCode req.userCode verificationURL)

def approvePending (ref : ℕ) (userID deviceCode : String) : Run Outcome := do
  let profileID ← observe Env.defaultProfileID
  match ← createAPIKey i ref userID profileID with
  | none => pure (.page "Failed to create API key. Please try again.")
  | some rawKey =>
    approve i deviceCode rawKey
    match ← observe Env.nonce with
    | .error _ => pure (.redirect "/auth/device")
    | .ok nonce => pure (.redirect ("/auth/device?approved=" ++ nonce))

/-- The user approves or denies. -/
def handleDeviceAuthPagePost (userID deviceCode action : String) : Run Outcome := do
  if deviceCode = "" then pure (.redirect "/auth/device")
  else
    match ← get deviceCode with
    | none => pure (.page "This device code has expired or is invalid.")
    | some ref =>
      if ← isPending i ref then
        if action = "deny" then
          deny i ref deviceCode
          pure .denied
        else approvePending i ref userID deviceCode
      else pure (.page "This device code has expired or is invalid.")

/-- The device polls. -/
def handleDeviceAuthToken (deviceCode : String) : Run Outcome := do
  if deviceCode = "" then pure (.httpError 400 "invalid request, device_code required")
  else
    match ← consume i deviceCode with
    | none => pure (.pollError "expired_token")
    | some ref =>
      match ← readStatus i ref with
      | .approved => do pure (.apiKey (← deliver i ref))
      | .denied => pure (.pollError "access_denied")
      | .pending => pure (.pollError "authorization_pending")

end

/-- The requests of devices and browsers. -/
inductive Request where
  | start
  | post (userID deviceCode action : String)
  | poll (deviceCode : String)

def Request.run (tools : Tools) (i : ℕ) : Request → Run Outcome
  | .start => handleDeviceAuthStart tools
  | .post userID deviceCode action => handleDeviceAuthPagePost i userID deviceCode action
  | .poll deviceCode => handleDeviceAuthToken i deviceCode

/-- The handlers in parallel. -/
def requests (tools : Tools) (reqs : List Request) : Pool State Env Outcome :=
  ⟨{}, reqs.mapIdx fun i r => r.run tools i⟩

structure Cleanup where
  now : ℤ

/-- Requests that have expired are removed. -/
def world (ev : Cleanup) (s : State) : State :=
  { s with requests := s.requests.filter fun ref => ¬ (s.request ref).expiresAt < ev.now }

end ArcRelay.Device
