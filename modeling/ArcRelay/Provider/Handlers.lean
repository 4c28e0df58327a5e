import ArcRelay.Lib.Interleave
import ArcRelay.Lib.Table
import Mathlib.Data.Int.Notation

/-!
# The relay as an authorization server

Clients register themselves, a user approves one of them on a page, and the client
exchanges the code it gets for an access token and a refresh token, and later the refresh
token for new ones (`internal/web/oauth_provider.go`).  Codes are kept in memory under a
lock; clients and tokens are rows (`internal/store/oauth_clients.go`,
`internal/store/oauth_tokens.go`), the tokens by their hash.

Each statement and each critical section is one step, so requests that come at the same
time meet between any two of them.  In particular a refresh token is looked up by one
statement and deleted by another.  Hashes, random values and the reading of URLs are
parameters.
-/

namespace ArcRelay.Provider

open Interleave Prog Table

/-! ### The data -/

/-- A row of `oauth_clients`. -/
structure Client where
  clientID : String
  clientSecretHash : String := ""
  clientName : String := ""
  redirectURIs : List String
  tokenEndpointAuthMethod : String := "none"
  deriving DecidableEq

def Client.hasRedirectURI (c : Client) (uri : String) : Bool := c.redirectURIs.any (· = uri)

/-- A code, with the number of its issue for the specification. -/
structure AuthCode where
  serial : ℕ
  code : String
  clientID : String
  userID : String
  redirectURI : String
  codeChallenge : String
  scope : String
  resource : String
  createdAt : ℤ
  expiresAt : ℤ
  deriving DecidableEq

/-- A row of `oauth_tokens` or of `oauth_refresh_tokens`, with the number of its issue. -/
structure TokenRow where
  serial : ℕ
  tokenHash : String
  userID : String
  clientID : String
  scope : String
  resource : String
  expiresAt : ℤ
  deriving DecidableEq

inductive Kind where
  | access | refresh
  deriving DecidableEq

inductive Source where
  | code (ac : AuthCode)
  | refresh (rt : TokenRow)
  deriving DecidableEq

/-- What happened, for the specification only; the number is that of the request. -/
inductive Entry where
  | approved (i : ℕ) (ac : AuthCode)
  /-- The code was taken, at a time before it expires. -/
  | consumed (i : ℕ) (ac : AuthCode) (now : ℤ)
  | read (i : ℕ) (rt : TokenRow)
  | removed (i : ℕ) (rt : TokenRow) (now : ℤ) (executed : Bool)
  | minted (i : ℕ) (kind : Kind) (source : Source) (row : TokenRow)
  deriving DecidableEq

structure State where
  clients : List Client := []
  codes : List AuthCode := []
  accessTokens : List TokenRow := []
  refreshTokens : List TokenRow := []
  next : ℕ := 0
  log : List Entry := []

structure Env where
  now : ℤ := 0
  storeErr : Option String := none
  /-- `rand.Read`, as text. -/
  random : Except String String := .ok ""
  /-- `uuid.New`. -/
  uuid : String := ""
  secret : String := ""

abbrev Run := Prog State Env

/-- What is called and not modelled. -/
structure Tools where
  sha256 : String → String
  /-- SHA-256 in base64 for URLs. -/
  computeCodeChallenge : String → String
  /-- What is wrong with a redirect URI of a registration. -/
  redirectURIError : String → Option String
  parsesAsURL : String → Bool

inductive Outcome where
  /-- `oauthError`. -/
  | oauthError (status : ℕ) (code description : String)
  | httpError (status : ℕ) (text : String)
  | page (error : String)
  /-- The user is sent back to the client with these parameters. -/
  | redirect (uri : String) (params : List (String × String))
  | registered (client : Client) (secret : String)
  | tokens (accessToken refreshToken scope : String)
  deriving DecidableEq

section

variable (tools : Tools) (i : ℕ)

/-! ### Clients -/

def getClient (clientID : String) : Run (Option Client) :=
  act fun s e =>
    (s, if e.storeErr = none then find Client.clientID clientID s.clients else none)

def Client.accepts (c : Client) (secret : String) : Bool :=
  c.clientSecretHash = "" || tools.sha256 secret = c.clientSecretHash

def validateSecret (clientID secret : String) : Run Bool := do
  match ← getClient clientID with
  | none => pure false
  | some c => pure (c.accepts tools secret)

structure Registration where
  clientName : String := ""
  redirectURIs : List String
  tokenEndpointAuthMethod : String := ""

/-- `INSERT INTO oauth_clients`. -/
def createClient (r : Registration) : Run (Except String (Client × String)) :=
  act fun s e =>
    let authMethod := if r.tokenEndpointAuthMethod = "" then "none" else r.tokenEndpointAuthMethod
    let confidential := authMethod = "client_secret_post"
    let secret := if confidential then e.secret else ""
    let c : Client :=
      { clientID := e.uuid
        clientSecretHash := if confidential then tools.sha256 secret else ""
        clientName := if r.clientName = "" then "MCP Client" else r.clientName
        redirectURIs := r.redirectURIs
        tokenEndpointAuthMethod := authMethod }
    match e.storeErr with
    | some err => (s, .error ("creating oauth client: " ++ err))
    | none =>
      if (find Client.clientID c.clientID s.clients).isSome then
        (s, .error "creating oauth client: UNIQUE constraint failed: oauth_clients.client_id")
      else ({ s with clients := s.clients ++ [c] }, .ok (c, secret))

/-- Registration of a client, the limit on requests and the decoding of the body apart. -/
def handleOAuthRegister (r : Registration) : Run Outcome := do
  if r.redirectURIs = [] then
    pure (.oauthError 400 "invalid_client_metadata" "redirect_uris required")
  else
    match r.redirectURIs.findSome? tools.redirectURIError with
    | some description => pure (.oauthError 400 "invalid_redirect_uri" description)
    | none =>
      match ← createClient tools r with
      | .error _ => pure (.oauthError 500 "server_error" "failed to register client")
      | .ok (c, secret) => pure (.registered c secret)

/-! ### Approval -/

structure AuthorizeForm where
  userID : String
  action : String
  clientID : String
  redirectURI : String
  state : String := ""
  codeChallenge : String := ""
  scope : String := ""
  resource : String := ""

def codeLifetime : ℤ := 5 * 60

/-- The code for a form.  It replaces one with the same text. -/
def createCode (f : AuthorizeForm) : Run (Except String String) :=
  act fun s e =>
    match e.random with
    | .error err => (s, .error err)
    | .ok code =>
      let ac : AuthCode :=
        { serial := s.next
          code := code
          clientID := f.clientID
          userID := f.userID
          redirectURI := f.redirectURI
          codeChallenge := f.codeChallenge
          scope := if f.scope = "" then "mcp" else f.scope
          resource := f.resource
          createdAt := e.now
          expiresAt := e.now + codeLifetime }
      ({ s with
          codes := ac :: delete AuthCode.code code s.codes
          next := s.next + 1
          log := .approved i ac :: s.log }, .ok code)

def handleOAuthAuthorizePost (f : AuthorizeForm) : Run Outcome := do
  match ← getClient f.clientID with
  | none => pure (.page "Unknown application. It may need to re-register.")
  | some client =>
    if f.redirectURI = "" ∨ client.hasRedirectURI f.redirectURI = false then
      pure (.page "Invalid redirect_uri.")
    else if tools.parsesAsURL f.redirectURI = false then
      pure (.httpError 400 "Invalid redirect_uri")
    else
      let state := if f.state = "" then [] else [("state", f.state)]
      if f.action = "deny" then
        pure (.redirect f.redirectURI (("error", "access_denied") :: state))
      else
        match ← createCode i f with
        | .error _ => pure (.httpError 500 "Internal error")
        | .ok code => pure (.redirect f.redirectURI (("code", code) :: state))

/-! ### Tokens -/

structure TokenForm where
  grantType : String
  clientID : String := ""
  clientSecret : String := ""
  code : String := ""
  redirectURI : String := ""
  codeVerifier : String := ""
  refreshToken : String := ""

def consumeCode (code : String) : Run (Option AuthCode) :=
  act fun s e =>
    match find AuthCode.code code s.codes with
    | none => (s, none)
    | some ac =>
      let rest := delete AuthCode.code code s.codes
      if ac.expiresAt < e.now then ({ s with codes := rest }, none)
      else ({ s with codes := rest, log := .consumed i ac e.now :: s.log }, some ac)

def Kind.lifetime : Kind → ℤ
  | .access => 60 * 60
  | .refresh => 30 * 24 * 60 * 60

def Kind.table : Kind → String
  | .access => "creating oauth token: "
  | .refresh => "creating refresh token: "

def State.tokens (s : State) : Kind → List TokenRow
  | .access => s.accessTokens
  | .refresh => s.refreshTokens

/-- `INSERT INTO` one of the tables. -/
def State.insert (s : State) (row : TokenRow) : Kind → State
  | .access => { s with accessTokens := s.accessTokens ++ [row] }
  | .refresh => { s with refreshTokens := s.refreshTokens ++ [row] }

/-- A new token for whoever the source stands for; the text is returned and its hash kept. -/
def mint (kind : Kind) (source : Source) (userID clientID scope resource : String) :
    Run (Except String String) :=
  act fun s e =>
    match e.storeErr with
    | some err => (s, .error (kind.table ++ err))
    | none =>
      let row : TokenRow :=
        { serial := s.next
          tokenHash := tools.sha256 e.uuid
          userID := userID
          clientID := clientID
          scope := scope
          resource := resource
          expiresAt := e.now + kind.lifetime }
      if (find TokenRow.tokenHash row.tokenHash (s.tokens kind)).isSome then
        (s, .error (kind.table ++ "UNIQUE constraint failed: token_hash"))
      else
        ({ s.insert row kind with
            next := s.next + 1
            log := .minted i kind source row :: s.log }, .ok e.uuid)

def mintAccessToken (source : Source) (userID clientID scope resource : String) :
    Run (Except String String) :=
  mint tools i .access source userID clientID scope resource

def mintRefreshToken (source : Source) (userID clientID scope resource : String) :
    Run (Except String String) :=
  mint tools i .refresh source userID clientID scope resource

/-- The last part of both grants. -/
def mintPair (source : Source) (userID clientID scope resource : String) : Run Outcome := do
  match ← mintAccessToken tools i source userID clientID scope resource with
  | .error _ => pure (.oauthError 500 "server_error" "failed to create access token")
  | .ok accessToken =>
    match ← mintRefreshToken tools i source userID clientID scope resource with
    | .error _ => pure (.oauthError 500 "server_error" "failed to create refresh token")
    | .ok refreshToken => pure (.tokens accessToken refreshToken scope)

def exchangeCode (f : TokenForm) : Run Outcome := do
  match ← consumeCode i f.code with
  | none =>
    pure (.oauthError 400 "invalid_grant" "invalid, expired, or already-used authorization code")
  | some ac =>
    if ac.clientID ≠ f.clientID then pure (.oauthError 400 "invalid_grant" "client_id mismatch")
    else if ac.redirectURI ≠ f.redirectURI then
      pure (.oauthError 400 "invalid_grant" "redirect_uri mismatch")
    else if tools.computeCodeChallenge f.codeVerifier ≠ ac.codeChallenge then
      pure (.oauthError 400 "invalid_grant" "PKCE code_verifier does not match code_challenge")
    else mintPair tools i (.code ac) ac.userID f.clientID ac.scope ac.resource

def handleTokenAuthorizationCode (f : TokenForm) : Run Outcome := do
  if f.code = "" ∨ f.clientID = "" ∨ f.codeVerifier = "" then
    pure (.oauthError 400 "invalid_request" "code, client_id, and code_verifier are required")
  else
    match ← getClient f.clientID with
    | none => pure (.oauthError 401 "invalid_client" "unknown client_id")
    | some client =>
      if client.tokenEndpointAuthMethod = "client_secret_post" then
        if ← validateSecret tools f.clientID f.clientSecret then exchangeCode tools i f
        else pure (.oauthError 401 "invalid_client" "invalid client credentials")
      else exchangeCode tools i f

/-- `SELECT ... FROM oauth_refresh_tokens WHERE token_hash = ?`. -/
def selectRefresh (tokenHash : String) : Run (Option TokenRow) :=
  act fun s e =>
    match e.storeErr, find TokenRow.tokenHash tokenHash s.refreshTokens with
    | none, some rt => ({ s with log := .read i rt :: s.log }, some rt)
    | _, _ => (s, none)

/-- `DELETE FROM oauth_refresh_tokens WHERE token_hash = ?`; what comes of it is passed
over. -/
def deleteRefresh (rt : TokenRow) (now : ℤ) : Run Unit :=
  act fun s e =>
    match e.storeErr with
    | some _ => ({ s with log := .removed i rt now false :: s.log }, ())
    | none =>
      ({ s with
          refreshTokens := delete TokenRow.tokenHash rt.tokenHash s.refreshTokens
          log := .removed i rt now true :: s.log }, ())

/-- `Consume`: the token is looked up and deleted, and returned unless it has expired. -/
def consumeRefresh (rawToken : String) : Run (Option TokenRow) := do
  match ← selectRefresh i (tools.sha256 rawToken) with
  | none => pure none
  | some rt =>
    let now ← observe Env.now
    deleteRefresh i rt now
    if rt.expiresAt < now then pure none else pure (some rt)

/-- The exchange of a refresh token.  The client of the request is looked at after the
token was taken, and its secret is not looked at. -/
def exchangeRefresh (f : TokenForm) : Run Outcome := do
  match ← consumeRefresh tools i f.refreshToken with
  | none => pure (.oauthError 400 "invalid_grant" "invalid or expired refresh token")
  | some rt =>
    if f.clientID ≠ "" ∧ rt.clientID ≠ f.clientID then
      pure (.oauthError 400 "invalid_grant" "client_id mismatch")
    else mintPair tools i (.refresh rt) rt.userID rt.clientID rt.scope rt.resource

def handleTokenRefresh (f : TokenForm) : Run Outcome := do
  if f.refreshToken = "" then
    pure (.oauthError 400 "invalid_request" "refresh_token is required")
  else if f.clientID = "" then exchangeRefresh tools i f
  else
    match ← getClient f.clientID with
    | none => pure (.oauthError 401 "invalid_client" "unknown client_id")
    | some _ => exchangeRefresh tools i f

def handleOAuthToken (f : TokenForm) : Run Outcome :=
  if f.grantType = "authorization_code" then handleTokenAuthorizationCode tools i f
  else if f.grantType = "refresh_token" then handleTokenRefresh tools i f
  else
    pure (.oauthError 400 "unsupported_grant_type"
      ("grant_type \"" ++ f.grantType ++ "\" is not supported"))

end

/-! ### Requests -/

inductive Request where
  | register (r : Registration)
  | authorize (f : AuthorizeForm)
  | token (f : TokenForm)

def Request.run (tools : Tools) (i : ℕ) : Request → Run Outcome
  | .register r => handleOAuthRegister tools r
  | .authorize f => handleOAuthAuthorizePost tools i f
  | .token f => handleOAuthToken tools i f

def numbered (rows : List TokenRow) : List TokenRow :=
  rows.mapIdx fun n row => { row with serial := n }

def requests (tools : Tools) (clients : List Client) (refreshTokens : List TokenRow)
    (reqs : List Request) : Pool State Env Outcome :=
  ⟨{ clients := clients, refreshTokens := numbered refreshTokens, next := refreshTokens.length },
    reqs.mapIdx fun i r => r.run tools i⟩

/-- What is removed when it has expired, and what goes with a user. -/
inductive WorldEvent where
  | cleanup (now : ℤ)
  | userDeleted (userID : String)

def world : WorldEvent → State → State
  | .cleanup now, s =>
    { s with
      codes := s.codes.filter fun ac => ¬ ac.expiresAt < now
      accessTokens := s.accessTokens.filter fun row => ¬ row.expiresAt < now
      refreshTokens := s.refreshTokens.filter fun row => ¬ row.expiresAt < now }
  | .userDeleted userID, s =>
    { s with
      accessTokens := s.accessTokens.filter fun row => row.userID ≠ userID
      refreshTokens := s.refreshTokens.filter fun row => row.userID ≠ userID }

end ArcRelay.Provider
