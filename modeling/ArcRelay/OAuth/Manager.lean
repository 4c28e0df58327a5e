import ArcRelay.Lib.Interleave
import ArcRelay.Lib.Lines
import Mathlib.Data.Int.Notation

/-!
# OAuth for a remote server

A remote server has one configuration, a JSON text in its row, that holds what an
administrator has entered, the client credentials, and the tokens
(`internal/store/servers.go`).  The manager keeps a copy of the tokens in memory
(`internal/oauth/oauth.go`).  Tokens come from the callback that ends an authorization
and from refreshes; a re-registration brings new credentials and clears the tokens; an
administrator may edit the configuration (`handleServerEdit` in
`internal/web/handlers.go`).

All of them read the whole configuration, talk to the provider, and write the whole
configuration back.  Each statement, each critical section and each request is one step,
so operations that run at the same time meet between any two of them.  This file has the
operations on one server; what the provider answers, and the format of times, are
parameters.
-/

namespace ArcRelay.OAuth

open Interleave Prog

/-! ### The data -/

structure RemoteAuth where
  authType : String := ""
  token : String := ""
  headerName : String := ""
  clientID : String := ""
  clientSecret : String := ""
  authURL : String := ""
  tokenURL : String := ""
  scopes : String := ""
  accessToken : String := ""
  refreshToken : String := ""
  tokenExpiry : String := ""
  registeredRedirectURI : String := ""
  registrationEndpoint : String := ""
  deriving DecidableEq

structure RemoteConfig where
  url : String
  auth : RemoteAuth
  deriving DecidableEq

/-- Tokens in memory; without a time of expiry they do not expire. -/
structure TokenSet where
  accessToken : String
  refreshToken : String
  tokenType : String := ""
  expiresAt : Option ℤ := none
  deriving DecidableEq

structure PendingAuth where
  state : String
  codeVerifier : String
  createdAt : ℤ

structure OAuthDiscovery where
  authURL : String
  tokenURL : String
  registrationEndpoint : String

structure ClientRegistration where
  clientID : String
  clientSecret : String

/-- What is written: the row, or the copy in memory. -/
inductive Write where
  | config (before after : RemoteConfig)
  | tokens (ts : Option TokenSet)
  deriving DecidableEq

/-- What happened, for the specification only; the number is that of the operation. -/
inductive Entry where
  | started (i : ℕ)
  /-- A write, by an operation that settles the configuration or by a refresh. -/
  | wrote (i : ℕ) (settles : Bool) (w : Write)
  /-- An operation that settles the configuration has returned, and left this behind. -/
  | returned (i : ℕ) (config : RemoteConfig) (tokens : Option (Option TokenSet))
  /-- A request to a token endpoint, what came back, and whether the endpoint has accepted
  it although nothing of use came back. -/
  | requested (i : ℕ) (url : String) (data : List (String × String))
      (reply : Except String TokenSet) (unheard : Bool)
  | unsaved (i : ℕ)
  deriving DecidableEq

structure State where
  config : RemoteConfig
  tokens : Option TokenSet := none
  pending : List PendingAuth := []
  refreshing : Option ℕ := none
  outcomes : List (ℕ × Except String Unit) := []
  log : List Entry := []

inductive TokenReply where
  /-- No answer, with the text of the error. -/
  | failed (err : String)
  | status (code : ℕ) (error description : String)
  | malformed (err : String)
  | ok (accessToken refreshToken tokenType : String) (expiresIn : ℤ)

structure Env where
  now : ℤ := 0
  storeErr : Option String := none
  token : TokenReply := .failed ""
  /-- The endpoint has accepted a request although its answer is lost or of no use. -/
  unheard : Bool := false
  discovery : Except String (Option OAuthDiscovery) := .ok none
  registration : Except String ClientRegistration := .error ""
  cancelled : Bool := false

abbrev Run := Prog State Env

structure Manager where
  baseURL : String
  serverID : String
  formatTime : ℤ → String
  parseTime : String → Option ℤ

def Manager.callbackURL (m : Manager) : String := m.baseURL ++ "/oauth/callback"

def TokenSet.isExpired (ts : TokenSet) (now : ℤ) : Bool :=
  match ts.expiresAt with
  | none => false
  | some t => t < now + 60

def TokenReply.tokenSet (now : ℤ) : TokenReply → Except String TokenSet
  | .failed err => .error err
  | .status code error description =>
    .error ("token endpoint returned " ++ toString code ++
      if error = "" then "" else ": " ++ error ++ ": " ++ description)
  | .malformed err => .error ("parsing token response: " ++ err)
  | .ok accessToken refreshToken tokenType expiresIn =>
    if accessToken = "" then .error "no access_token in token endpoint response (HTTP 200)"
    else
      .ok ⟨accessToken, refreshToken, tokenType,
        if 0 < expiresIn then some (now + expiresIn) else none⟩

def mentions (err text : String) : Bool := (Lines.index err.toList text.toList).isSome

/-! ### Changes of the configuration -/

def RemoteConfig.withTokens (cfg : RemoteConfig) (m : Manager) (ts : TokenSet) : RemoteConfig :=
  { cfg with
    auth := { cfg.auth with
      accessToken := ts.accessToken
      refreshToken := ts.refreshToken
      tokenExpiry := (ts.expiresAt.map m.formatTime).getD "" } }

def RemoteConfig.cleared (cfg : RemoteConfig) : RemoteConfig :=
  { cfg with auth := { cfg.auth with accessToken := "", refreshToken := "", tokenExpiry := "" } }

/-- The second text, unless it is empty. -/
def orElse (old new : String) : String := if new = "" then old else new

/-- New credentials, no tokens, and the endpoints that were discovered. -/
def RemoteConfig.reregistered (cfg : RemoteConfig) (callbackURL regEndpoint : String)
    (disc : Option OAuthDiscovery) (reg : ClientRegistration) : RemoteConfig :=
  { cfg with
    auth := { cfg.auth with
      clientID := reg.clientID
      clientSecret := reg.clientSecret
      registeredRedirectURI := callbackURL
      registrationEndpoint := regEndpoint
      authURL := orElse cfg.auth.authURL ((disc.map (·.authURL)).getD "")
      tokenURL := orElse cfg.auth.tokenURL ((disc.map (·.tokenURL)).getD "")
      accessToken := ""
      refreshToken := ""
      tokenExpiry := "" } }

def RemoteConfig.rediscovered (cfg : RemoteConfig) (disc : OAuthDiscovery) : RemoteConfig :=
  { cfg with
    auth := { cfg.auth with
      tokenURL := disc.tokenURL
      authURL := orElse cfg.auth.authURL disc.authURL
      registrationEndpoint := orElse cfg.auth.registrationEndpoint disc.registrationEndpoint } }

/-- What an edit keeps of the configuration it has read: the tokens if the form has none,
and what is tracked of the registration. -/
def RemoteConfig.preserve (old new : RemoteConfig) : RemoteConfig :=
  let auth :=
    if new.auth.accessToken = "" ∧ old.auth.accessToken ≠ "" then
      { new.auth with
        accessToken := old.auth.accessToken
        refreshToken := old.auth.refreshToken
        tokenExpiry := old.auth.tokenExpiry }
    else new.auth
  { new with
    auth := { auth with
      registeredRedirectURI := orElse old.auth.registeredRedirectURI auth.registeredRedirectURI
      registrationEndpoint := orElse old.auth.registrationEndpoint auth.registrationEndpoint } }

def loadTokens (m : Manager) (cfg : RemoteConfig) : Option TokenSet :=
  if cfg.auth.accessToken = "" then none
  else
    some
      { accessToken := cfg.auth.accessToken
        refreshToken := cfg.auth.refreshToken
        expiresAt := if cfg.auth.tokenExpiry = "" then none else m.parseTime cfg.auth.tokenExpiry }

/-! ### Single steps -/

section

variable (m : Manager) (i : ℕ)

def start : Run Unit := Prog.set fun s => { s with log := .started i :: s.log }

def getConfig : Run (Except String RemoteConfig) :=
  attempt (·.storeErr) fun s _ => (s, s.config)

/-- `UPDATE servers SET config = ?`. -/
def updateConfig (settles : Bool) (cfg : RemoteConfig) : Run (Except String Unit) :=
  act fun s e =>
    match e.storeErr with
    | some err => ({ s with log := .unsaved i :: s.log }, .error err)
    | none =>
      ({ s with config := cfg, log := .wrote i settles (.config s.config cfg) :: s.log }, .ok ())

def setTokens (ts : Option TokenSet) : Run Unit :=
  Prog.set fun s => { s with tokens := ts, log := .wrote i false (.tokens ts) :: s.log }

/-- The last step of an operation that settles the configuration as `cfg`: the copy in
memory. -/
def settle (cfg : RemoteConfig) (ts : Option TokenSet) : Run Unit :=
  Prog.set fun s =>
    { s with
      tokens := ts
      log := .returned i cfg (some ts) :: .wrote i true (.tokens ts) :: s.log }

def tokenRequest (url : String) (data : List (String × String)) : Run (Except String TokenSet) :=
  act fun s e =>
    let reply := e.token.tokenSet e.now
    ({ s with log := .requested i url data reply e.unheard :: s.log }, reply)

/-! ### Authorization and registration -/

def exchangeCode (auth : RemoteAuth) (code verifier : String) : Run (Except String TokenSet) :=
  tokenRequest i auth.tokenURL
    ([("grant_type", "authorization_code"), ("code", code), ("redirect_uri", m.callbackURL),
        ("client_id", auth.clientID), ("code_verifier", verifier)] ++
      if auth.clientSecret = "" then [] else [("client_secret", auth.clientSecret)])

def takePending (state : String) : Run (Option (PendingAuth × ℤ)) :=
  act fun s e =>
    match s.pending.find? fun pa => pa.state = state with
    | none => (s, none)
    | some pa =>
      ({ s with pending := s.pending.filter fun pa => pa.state ≠ state }, some (pa, e.now))

def pendingAuthExpiry : ℤ := 10 * 60

def handleCallback (state code : String) : Run (Except String Unit) := do
  match ← takePending state with
  | none => pure (.error "unknown or expired OAuth state")
  | some (pa, now) =>
    if pendingAuthExpiry < now - pa.createdAt then pure (.error "OAuth state expired")
    else
      match ← getConfig with
      | .error _ => pure (.error ("server not found: " ++ m.serverID))
      | .ok cfg =>
        match ← exchangeCode m i cfg.auth code pa.codeVerifier with
        | .error err => pure (.error ("token exchange failed: " ++ err))
        | .ok ts =>
          match ← updateConfig i true (cfg.withTokens m ts) with
          | .error err => pure (.error ("saving tokens: " ++ err))
          | .ok () =>
            settle i (cfg.withTokens m ts) (some ts)
            pure (.ok ())

def discover : List String → Run (Option OAuthDiscovery)
  | [] => pure none
  | tryURL :: urls =>
    if tryURL = "" then discover urls
    else do
      match ← observe Env.discovery with
      | .ok (some d) => if d.registrationEndpoint = "" then discover urls else pure (some d)
      | _ => discover urls

/-- Registers a client and puts its credentials in place of the old ones. -/
def register (cfg : RemoteConfig) (disc : Option OAuthDiscovery) (regEndpoint : String) :
    Run (Except String Bool) := do
  match ← observe Env.registration with
  | .error err => pure (.error ("re-registration failed: " ++ err))
  | .ok reg =>
    let cfg' := cfg.reregistered m.callbackURL regEndpoint disc reg
    match ← updateConfig i true cfg' with
    | .error err => pure (.error ("persisting re-registration: " ++ err))
    | .ok () =>
      settle i cfg' none
      pure (.ok true)

/-- Discovery is for endpoints that are missing: at the server, then at the place its
users are sent to. -/
def discoverIfNeeded (cfg : RemoteConfig) : Run (Option OAuthDiscovery) :=
  if cfg.auth.registrationEndpoint = "" ∨ cfg.auth.authURL = "" ∨ cfg.auth.tokenURL = "" then
    discover [cfg.url, cfg.auth.authURL]
  else pure none

def reRegisterIfNeeded (cfg : RemoteConfig) (force : Bool) : Run (Except String Bool) :=
  if !force ∧ cfg.auth.registeredRedirectURI = m.callbackURL then pure (.ok false)
  else do
    let disc ← discoverIfNeeded cfg
    if cfg.auth.registrationEndpoint = "" then
      match disc with
      | none =>
        -- never tracked: the existing credentials will do
        if cfg.auth.registeredRedirectURI = "" then pure (.ok false)
        else
          pure (.error ("redirect URI changed but cannot re-register: no registration endpoint " ++
            "found (update client credentials manually)"))
      | some d => register m i cfg disc d.registrationEndpoint
    else register m i cfg disc cfg.auth.registrationEndpoint

/-- The start of an authorization, as far as it changes the configuration. -/
def reRegister (force : Bool) : Run (Except String Bool) := do
  match ← getConfig with
  | .error _ => pure (.error "404 page not found")
  | .ok cfg =>
    if cfg.auth.authType ≠ "oauth" then pure (.error "Server is not configured for OAuth")
    else reRegisterIfNeeded m i cfg force

/-! ### Refreshes -/

/-- Tokens that no longer work are removed.  A failure to do so is only logged. -/
def clearTokens (cfg : RemoteConfig) : Run Unit := do
  let _ ← updateConfig i false cfg.cleared
  setTokens i none

/-- Looks for the endpoints again after the token endpoint was not found, and repeats the
request. -/
def rediscover (cfg : RemoteConfig) (data : List (String × String)) (err : String) :
    Run (RemoteConfig × Except String TokenSet) := do
  match ← observe Env.discovery with
  | .ok (some disc) =>
    if disc.tokenURL ≠ "" ∧ disc.tokenURL ≠ cfg.auth.tokenURL then
      let _ ← updateConfig i false (cfg.rediscovered disc)
      let reply ← tokenRequest i disc.tokenURL data
      pure (cfg.rediscovered disc, reply)
    else pure (cfg, .error err)
  | _ => pure (cfg, .error err)

/-- What becomes of the answer: the new tokens are saved, tokens that were refused are
cleared. -/
def finishRefresh (cfg : RemoteConfig) (ts : TokenSet) :
    Except String TokenSet → Run (Except String Unit)
  | .error err => do
    if mentions err "invalid_grant" then clearTokens i cfg
    pure (.error ("token refresh failed (reauthorize via server detail page): " ++ err))
  | .ok newTS => do
    let newTS := { newTS with refreshToken := orElse ts.refreshToken newTS.refreshToken }
    match ← updateConfig i false (cfg.withTokens m newTS) with
    | .error err => pure (.error ("saving refreshed tokens: " ++ err))
    | .ok () =>
      setTokens i (some newTS)
      pure (.ok ())

def refreshData (auth : RemoteAuth) (ts : TokenSet) : List (String × String) :=
  [("grant_type", "refresh_token"), ("refresh_token", ts.refreshToken),
      ("client_id", auth.clientID)] ++
    (if auth.clientSecret = "" then [] else [("client_secret", auth.clientSecret)]) ++
    if auth.registeredRedirectURI = "" then []
    else [("redirect_uri", auth.registeredRedirectURI)]

/-- `doRefreshToken`, for tokens with a refresh token. -/
def doRefresh (ts : TokenSet) : Run (Except String Unit) := do
  match ← getConfig with
  | .error _ => pure (.error ("server not found: " ++ m.serverID))
  | .ok cfg =>
    let data := refreshData cfg.auth ts
    match ← tokenRequest i cfg.auth.tokenURL data with
    | .ok newTS => finishRefresh m i cfg ts (.ok newTS)
    | .error err =>
      if mentions err "returned 404" then
        let (cfg', reply) ← rediscover i cfg data err
        finishRefresh m i cfg' ts reply
      else finishRefresh m i cfg ts (.error err)

def noRefreshToken : String :=
  "no refresh token available for server " ++ m.serverID ++
    " — reauthorize via the server detail page"

def doRefreshToken : Option TokenSet → Run (Except String Unit)
  | none => pure (.error (noRefreshToken m))
  | some ts => if ts.refreshToken = "" then pure (.error (noRefreshToken m)) else doRefresh m i ts

/-- Waits for the refresh of another operation, or until the caller gives up. -/
def awaitRefresh (k : ℕ) : Run (Except String Unit) :=
  act fun s e =>
    match s.outcomes.lookup k with
    | some r => (s, if e.cancelled then .error "context canceled" else r)
    | none => (s, .error "context canceled")

/-- One refresh at a time; the others wait for it. -/
def refreshToken : Run (Except String Unit) := do
  match ← act (fun s _ =>
    match s.refreshing with
    | some k => (s, Sum.inl k)
    | none => ({ s with refreshing := some i }, Sum.inr s.tokens)) with
  | .inl k => awaitRefresh k
  | .inr ts =>
    let r ← doRefreshToken m i ts
    Prog.set fun s => { s with refreshing := none, outcomes := (i, r) :: s.outcomes }
    pure r

/-! ### Operations -/

inductive Outcome where
  | failed (err : String)
  /-- A nil token set was dereferenced. -/
  | panicked
  | token (accessToken : String)
  | info (ts : Option TokenSet)
  | done (changed : Bool)
  deriving DecidableEq

def Outcome.ofExcept (changed : Bool) : Except String Unit → Outcome
  | .error err => .failed err
  | .ok () => .done changed

def useTokens (ts : TokenSet) : Run Outcome := do
  if ts.isExpired (← observe Env.now) then
    match ← refreshToken m i with
    | .error err => pure (.failed ("refreshing token: " ++ err))
    | .ok () =>
      match ← Prog.get State.tokens with
      | none => pure .panicked
      | some ts => pure (.token ts.accessToken)
  else pure (.token ts.accessToken)

def getAccessToken : Run Outcome := do
  match ← Prog.get State.tokens with
  | some ts => useTokens m i ts
  | none =>
    match ← getConfig with
    | .error err => pure (.failed ("loading tokens: " ++ err))
    | .ok cfg =>
      match loadTokens m cfg with
      | none => pure (.failed ("no OAuth tokens for server " ++ m.serverID))
      | some ts =>
        setTokens i (some ts)
        useTokens m i ts

/-- The tokens for display; a failure to load them is passed over. -/
def getTokenInfo : Run Outcome := do
  match ← Prog.get State.tokens with
  | some ts => pure (.info (some ts))
  | none =>
    match ← getConfig with
    | .error _ => pure (.info none)
    | .ok cfg =>
      match loadTokens m cfg with
      | none => pure (.info none)
      | some ts =>
        setTokens i (some ts)
        pure (.info (some ts))

def serverEdit (form : RemoteConfig) : Run Outcome := do
  match ← getConfig with
  | .error _ => pure (.failed "404 page not found")
  | .ok old =>
    let cfg := old.preserve form
    match ← attempt Env.storeErr (fun s _ =>
      ({ s with
          config := cfg
          log := .returned i cfg none :: .wrote i true (.config s.config cfg) :: s.log }, ())) with
    | .error _ => pure (.failed "Failed to update server")
    | .ok () => pure (.done true)

end

inductive Op where
  | handleCallback (state code : String)
  | reRegister (force : Bool)
  | edit (form : RemoteConfig)
  | getAccessToken
  | getTokenInfo
  | forceRefresh

def Op.body (m : Manager) (i : ℕ) : Op → Run Outcome
  | .handleCallback state code => do
    pure (.ofExcept true (← OAuth.handleCallback m i state code))
  | .reRegister force => do
    match ← OAuth.reRegister m i force with
    | .error err => pure (.failed err)
    | .ok changed => pure (.done changed)
  | .edit form => serverEdit i form
  | .getAccessToken => OAuth.getAccessToken m i
  | .getTokenInfo => OAuth.getTokenInfo m i
  | .forceRefresh => do pure (.ofExcept true (← refreshToken m i))

def Op.run (m : Manager) (i : ℕ) (op : Op) : Run Outcome := do
  start i
  op.body m i

def operations (m : Manager) (config : RemoteConfig) (tokens : Option TokenSet)
    (pending : List PendingAuth) (ops : List Op) : Pool State Env Outcome :=
  ⟨{ config := config, tokens := tokens, pending := pending }, ops.mapIdx fun i op => op.run m i⟩

inductive WorldEvent where
  | flowStarted (pa : PendingAuth)
  | cleanup (now : ℤ)

def world : WorldEvent → State → State
  | .flowStarted pa, s => { s with pending := pa :: s.pending }
  | .cleanup now, s =>
    { s with pending := s.pending.filter fun pa => ¬ pendingAuthExpiry < now - pa.createdAt }

end ArcRelay.OAuth
