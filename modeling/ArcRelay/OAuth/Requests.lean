import ArcRelay.Manager.Lifecycle

/-!
# Requests to a remote server

The proxy of a remote server (`internal/proxy/remote_proxy.go`) is made from the configuration
the server has when it is started, and posts every request to the URL of that configuration.
For a server with OAuth it puts the access token into the `Authorization` header that the
manager of tokens has then: the one in memory, the one in the row, or a new one.  A request that
is refused with 401 is made again with new tokens.

This file has the proxy, and histories of one server: authorizations, refreshes, edits, starts
and stops, restarts of the process and requests, one after the other.  It notes which access
tokens were obtained while the row had which URL, and which were sent where.
-/

namespace ArcRelay.OAuth

open Interleave
open Lifecycle (ServerType)

/-! ### The proxy -/

structure RemoteProxy where
  config : RemoteConfig
  sessionID : String := ""
  lastOAuthToken : String := ""

def RemoteProxy.withSession (p : RemoteProxy) (sessionID : String) : RemoteProxy :=
  { p with sessionID := sessionID }

def RemoteProxy.afresh (p : RemoteProxy) : RemoteProxy :=
  { p with sessionID := "", lastOAuthToken := "" }

structure RequestEnv extends Env where
  /-- What the remote server answers: a status, and the session it names. -/
  answer : Except String (ℕ × String) := .error ""

abbrev Request := Prog State RequestEnv

def manager {α : Type} (p : Run α) : Request α := p.focus id (fun _ s => s) RequestEnv.toEnv

/-- A request that was made: where to, with which header, and with which token of the
manager. -/
structure Sent where
  url : String
  header : Option (String × String) := none
  accessToken : Option String := none
  deriving DecidableEq

structure Authorized where
  proxy : RemoteProxy
  header : Option (String × String) := none
  accessToken : Option String := none
  tokenRefreshed : Bool := false

/-- The requests an exchange has made, and the status of the last answer; it is 0 if there was
none. -/
structure Exchange where
  proxy : RemoteProxy
  sent : List Sent := []
  status : ℕ := 0

section

variable (m : Manager)

def applyAuth (p : RemoteProxy) : Request (Except String Authorized) :=
  let auth := p.config.auth
  if auth.authType = "bearer" then
    pure (.ok { proxy := p, header := some ("Authorization", "Bearer " ++ auth.token) })
  else if auth.authType = "api_key" then
    pure (.ok { proxy := p, header := some (orElse "X-API-Key" auth.headerName, auth.token) })
  else if auth.authType = "oauth" then do
    match ← manager (getAccessToken m 0) with
    | .token token =>
      pure (.ok
        { proxy := { p with lastOAuthToken := token }
          header := some ("Authorization", "Bearer " ++ token)
          accessToken := some token
          tokenRefreshed := p.lastOAuthToken ≠ "" ∧ p.lastOAuthToken ≠ token })
    | .failed err => pure (.error ("getting OAuth token: " ++ err))
    | _ => pure (.error "panic")
  else pure (.ok { proxy := p })

def renewSession (setUp : RemoteProxy → Request Exchange) (a : Authorized) :
    Request Exchange :=
  if a.tokenRefreshed ∧ a.proxy.sessionID ≠ "" then
    setUp (a.proxy.withSession "")
  else pure { proxy := a.proxy }

def post (a : Authorized) (before : Exchange) (method : String) : Request Exchange := do
  let p := if method = "initialize" then before.proxy.withSession "" else before.proxy
  let sent := ⟨p.config.url, a.header, a.accessToken⟩ :: before.sent
  match ← Prog.observe RequestEnv.answer with
  | .error _ => pure { proxy := p, sent := sent }
  | .ok (status, sid) =>
    pure
      { proxy := if status = 200 ∧ sid ≠ "" then p.withSession sid else p
        sent := sent
        status := status }

def doSendWith (setUp : RemoteProxy → Request Exchange) (p : RemoteProxy)
    (method : String) : Request Exchange := do
  match ← applyAuth m p with
  | .error _ => pure { proxy := p }
  | .ok a =>
    let before ← renewSession setUp a
    post a before method

/-- There is no session when a session is established, so it is not established anew once
more. -/
def reinitialize (p : RemoteProxy) : Request Exchange :=
  doSendWith m (fun p => pure { proxy := p }) p "initialize"

def doSend (p : RemoteProxy) (method : String) : Request Exchange :=
  let setUp := reinitialize m
  doSendWith m setUp p method

def send (p : RemoteProxy) (method : String) : Request Exchange := do
  let first ← doSend m p method
  if first.status = 401 ∧ p.config.auth.authType = "oauth" then
    match ← manager (refreshToken m 0) with
    | .error _ => pure first
    | .ok () =>
      let again ← reinitialize m first.proxy.afresh
      let second ← doSend m again.proxy method
      pure ⟨second.proxy, second.sent ++ again.sent ++ first.sent, second.status⟩
  else pure first

def sendNotification (p : RemoteProxy) : Request Exchange := do
  match ← applyAuth m p with
  | .error _ => pure { proxy := p }
  | .ok a => pure { proxy := a.proxy, sent := [⟨p.config.url, a.header, a.accessToken⟩] }

/-! ### Starting -/

inductive Backend where
  /-- The backend of a server of another type; it sends no token. -/
  | plain
  | remote (p : RemoteProxy)

def hasTokens : Run Bool := do
  match ← Prog.get State.tokens with
  | some _ => pure true
  | none =>
    match ← getConfig with
    | .error _ => pure false
    | .ok cfg => pure (loadTokens m cfg).isSome

def startRemote (cfg : RemoteConfig) : Run (Option Backend) := do
  if cfg.auth.authType = "oauth" ∧ cfg.auth.accessToken = "" then
    if ← hasTokens m then pure (some (.remote { config := cfg })) else pure none
  else pure (some (.remote { config := cfg }))

def startServer (serverType : ServerType) : Request (Option Backend) := do
  match ← manager getConfig with
  | .error _ => pure none
  | .ok cfg =>
    match serverType with
    | .remote => manager (startRemote m cfg)
    | .stdio | .http =>
      match ← Prog.observe RequestEnv.answer with
      | .error _ => pure none
      | .ok _ => pure (some .plain)

end

/-! ### Edits -/

/-- A form: the type of the server, and what its configuration decodes into as that of a remote
server.  No form has tokens. -/
structure Form where
  serverType : ServerType
  config : RemoteConfig
  noTokens : config.auth.accessToken = "" ∧ config.auth.refreshToken = "" ∧
    config.auth.tokenExpiry = ""

/-- The edit that makes a server one of another type. -/
def replaceConfig (cfg : RemoteConfig) : Run Outcome := do
  match ← getConfig with
  | .error _ => pure (.failed "404 page not found")
  | .ok _ =>
    match ← updateConfig 0 true cfg with
    | .error _ => pure (.failed "Failed to update server")
    | .ok () => pure (.done true)

/-- Tokens are kept for a remote server only. -/
def handleServerEdit (form : Form) : Run Outcome :=
  match form.serverType with
  | .remote => serverEdit 0 form.config
  | .stdio | .http => replaceConfig form.config

/-! ### Histories -/

structure World where
  oauth : State
  serverType : ServerType := .remote
  backend : Option Backend := none
  /-- The URL the row had, and the access token that was obtained then. -/
  obtained : List (String × String) := []
  sent : List Sent := []

inductive Step where
  | world (ev : WorldEvent)
  | handleCallback (state code : String)
  | reRegister (force : Bool)
  | refresh
  | getTokenInfo
  | edit (form : Form)
  | start
  | stop
  | reboot
  | request (method : String)
  | notify

def replies (log : List Entry) : List String :=
  log.filterMap fun
    | .requested _ _ _ (.ok ts) _ => some ts.accessToken
    | _ => none

/-- An operation from its begin to its end. -/
def World.perform {α : Type} (w : World) (p : Request α) (env : ℕ → RequestEnv) : World × α :=
  let r := p.alone env { w.oauth with log := [] }
  ({ w with
      oauth := r.1
      obtained := (replies r.1.log).map (fun t => (w.oauth.config.url, t)) ++ w.obtained }, r.2)

def World.exchange (w : World) (p : RemoteProxy → Request Exchange) (env : ℕ → RequestEnv) :
    World :=
  match w.backend with
  | some (.remote proxy) =>
    let r := w.perform (p proxy) env
    { r.1 with backend := some (.remote r.2.proxy), sent := r.2.sent ++ w.sent }
  | some .plain | none => w

def World.apply (m : Manager) (w : World) (env : ℕ → RequestEnv) : Step → World
  | .world ev => { w with oauth := OAuth.world ev w.oauth }
  | .handleCallback state code => (w.perform (manager (OAuth.handleCallback m 0 state code)) env).1
  | .reRegister force => (w.perform (manager (OAuth.reRegister m 0 force)) env).1
  | .refresh => (w.perform (manager (refreshToken m 0)) env).1
  | .getTokenInfo => (w.perform (manager (OAuth.getTokenInfo m 0)) env).1
  | .edit form =>
    let r := w.perform (manager (handleServerEdit form)) env
    if r.2 = .done true then { r.1 with serverType := form.serverType } else r.1
  | .start =>
    match w.backend with
    | some _ => w
    | none =>
      let r := w.perform (startServer m w.serverType) env
      { r.1 with backend := r.2 }
  | .stop => { w with backend := none }
  | .reboot => { w with backend := none, oauth := { config := w.oauth.config } }
  | .request method => w.exchange (fun p => send m p method) env
  | .notify => w.exchange (sendNotification m) env

def World.run (m : Manager) (w : World) (history : List (Step × (ℕ → RequestEnv))) : World :=
  history.foldl (fun w x => w.apply m x.2 x.1) w

/-- A server with a row, in a process that has just begun.  The token in the row, if there is
one, was obtained for the URL in the row. -/
def World.init (config : RemoteConfig) : World where
  oauth := { config := config }
  obtained :=
    if config.auth.accessToken = "" then [] else [(config.url, config.auth.accessToken)]

end ArcRelay.OAuth
