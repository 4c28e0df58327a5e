import ArcRelay.Access.Directory
import ArcRelay.Skills.Upload

/-!
# Invites

An administrator invites somebody by a token that stands for an account that does not exist
yet (`internal/store/invites.go`).  The row of the token records the role, the access level
and the profile of the account; whoever has the token chooses the name and the password, over
the API or in the browser (`handleInviteExchange` and `handleInviteRedeem` in
`internal/web/handlers.go`).

Both handlers do their work in one transaction: they mark the token as used, insert the user
and, over the API, a key, and record who has redeemed the token.  A transaction is one step,
since the store is taken to be serializable; whatever fails before the commit is rolled back.
SHA-256 is a parameter.

Times are bound as texts, with the wall clock of the process's zone in front, and SQLite compares
the texts (`Stamp.textBefore`).
-/

namespace ArcRelay.Invite

open Interleave Access List Prog
open Skills (trimSpace)

/-! ### The tables -/

/-- A time with the offset of its zone from UTC. -/
structure Stamp where
  instant : ℤ
  offset : ℤ := 0
  deriving DecidableEq

/-- What the clock on the wall shows. -/
def Stamp.wall (s : Stamp) : ℤ := s.instant + s.offset

/-- The order of the texts of offsets: `+` comes before `-`, and then the figures count. -/
def offsetBefore (a b : ℤ) : Bool :=
  if 0 ≤ a ↔ 0 ≤ b then a.natAbs < b.natAbs else 0 ≤ a

/-- The order of texts such as `2026-10-25 02:30:00+02:00`, as go-sqlite3 writes them. -/
def Stamp.textBefore (s t : Stamp) : Bool :=
  s.wall < t.wall || s.wall = t.wall && offsetBefore s.offset t.offset

inductive Status where
  | pending | used | expired
  deriving DecidableEq

/-- A row of `invite_tokens`. -/
structure InviteToken where
  id : String
  tokenHash : String
  role : String
  /-- None if the column is empty. -/
  accessLevel : Option Tier
  profileID : Option String
  createdBy : String
  expiresAt : Stamp
  usedAt : Option Stamp := none
  redeemedUserID : Option String := none
  status : Status := .pending

structure Tables where
  directory : Directory
  invites : List InviteToken
  issued : List String
  inviteIDs : (invites.map InviteToken.id).Nodup
  tokenHashes : (invites.map InviteToken.tokenHash).Nodup
  inviteIssued : ∀ r ∈ invites, r.id ∈ issued

def Tables.mapInvites (t : Tables) (f : InviteToken → InviteToken) (hid : ∀ r, (f r).id = r.id)
    (hhash : ∀ r, (f r).tokenHash = r.tokenHash) : Tables :=
  { t with
    invites := t.invites.map f
    inviteIDs := by
      have hids : (t.invites.map f).map InviteToken.id = t.invites.map InviteToken.id := by
        simp [Function.comp_def, hid]
      exact hids ▸ t.inviteIDs
    tokenHashes := by
      have hhashes : (t.invites.map f).map InviteToken.tokenHash =
          t.invites.map InviteToken.tokenHash := by
        simp [Function.comp_def, hhash]
      exact hhashes ▸ t.tokenHashes
    inviteIssued := by
      intro r hr
      obtain ⟨r', hr', rfl⟩ := mem_map.mp hr
      rw [hid]
      exact t.inviteIssued r' hr' }

def Tables.filterInvites (t : Tables) (keep : InviteToken → Bool) : Tables :=
  { t with
    invites := t.invites.filter keep
    inviteIDs := t.inviteIDs.sublist (filter_sublist.map _)
    tokenHashes := t.tokenHashes.sublist (filter_sublist.map _)
    inviteIssued := fun r hr => t.inviteIssued r (mem_of_mem_filter hr) }

/-- An account that was created, for the specification only: the attempt, the invite as it was
before, the user and the time. -/
structure Created where
  attempt : ℕ
  invite : InviteToken
  user : UserRow
  time : Stamp

structure State where
  tables : Tables
  created : List Created := []

/-- What one step meets outside: what fails, the clock, and what is generated. -/
structure Env where
  rateLimited : Bool := false
  beginErr : Option String := none
  consumeErr : Option String := none
  readErr : Option String := none
  bcryptErr : Option String := none
  userErr : Option String := none
  keyErr : Option String := none
  redeemedErr : Option String := none
  commitErr : Option String := none
  storeErr : Option String := none
  generateErr : Option String := none
  now : Stamp := ⟨0, 0⟩
  userID : String := ""
  keyID : String := ""
  rawKey : String := ""

abbrev Run := Prog State Env

/-! ### The transaction -/

section

variable (hash : String → String)

/-- `token_hash = ? AND status = 'pending' AND expires_at > ?`. -/
def InviteToken.redeemable (tokenHash : String) (now : Stamp) (r : InviteToken) : Bool :=
  r.tokenHash = tokenHash && r.status = .pending && now.textBefore r.expiresAt

/-- `UPDATE invite_tokens SET status = 'used', used_at = ? WHERE ...`. -/
def Tables.consume (t : Tables) (tokenHash : String) (now : Stamp) : Tables :=
  t.mapInvites
    (fun r =>
      if r.redeemable tokenHash now then { r with status := .used, usedAt := some now } else r)
    (fun r => by split <;> rfl) (fun r => by split <;> rfl)

/-- Marks a token as used and reads it back; none if it is not there, expired or used. -/
def validateAndConsumeTx (e : Env) (rawToken : String) (t : Tables) :
    Except String (Option (InviteToken × Tables)) :=
  match e.consumeErr with
  | some err => .error ("consuming invite token: " ++ err)
  | none =>
    if ¬ t.invites.any (InviteToken.redeemable (hash rawToken) e.now) then .ok none
    else
      match e.readErr with
      | some err => .error ("reading consumed invite token: " ++ err)
      | none =>
        let t' := t.consume (hash rawToken) e.now
        match Table.find InviteToken.tokenHash (hash rawToken) t'.invites with
        | none => .error "reading consumed invite token: sql: no rows in result set"
        | some r => .ok (some (r, t'))

def accountLevel (role : String) (accessLevel : Option Tier) : Tier :=
  if role = "admin" then .admin else accessLevel.getD .write

def createWithAccessLevelTx (e : Env) (username role : String) (accessLevel : Option Tier)
    (defaultProfileID : Option String) (d : Directory) : Except String (Directory × UserRow) :=
  match e.bcryptErr with
  | some err => .error ("hashing password: " ++ err)
  | none =>
    match d.createWithAccessLevel e.userErr e.userID username role accessLevel defaultProfileID with
    | (_, some err) => .error err
    | (d', none) =>
      .ok (d', ⟨e.userID, username, role, accountLevel role accessLevel, defaultProfileID⟩)

def createAPIKeyTx (e : Env) (userID : String) (profileID : Option String) (d : Directory) :
    Except String Directory :=
  match d.createAPIKey e.keyErr ⟨e.keyID, userID, hash e.rawKey, profileID, false, []⟩ with
  | (_, some err) => .error err
  | (d', none) => .ok d'

/-- The handlers pass over its error. -/
def setRedeemedUserTx (e : Env) (tokenID userID : String) (t : Tables) : Tables :=
  match e.redeemedErr with
  | some _ => t
  | none =>
    t.mapInvites (fun r => if r.id = tokenID then { r with redeemedUserID := some userID } else r)
      (fun r => by split <;> rfl) (fun r => by split <;> rfl)

inductive TxError where
  | consuming (err : String)
  | invalid
  | creatingUser (err : String)
  | creatingKey (err : String)
  | committing (err : String)

def redeemTx (withKey : Bool) (username rawToken : String) (e : Env) (t : Tables) :
    Except TxError (Tables × UserRow) := do
  match validateAndConsumeTx hash e rawToken t with
  | .error err => .error (.consuming err)
  | .ok none => .error .invalid
  | .ok (some (invite, t)) =>
    match createWithAccessLevelTx e username invite.role invite.accessLevel invite.profileID
        t.directory with
    | .error err => .error (.creatingUser err)
    | .ok (d, user) =>
      match if withKey then createAPIKeyTx hash e user.id invite.profileID d else .ok d with
      | .error err => .error (.creatingKey err)
      | .ok d =>
        let t := setRedeemedUserTx e invite.id user.id { t with directory := d }
        match e.commitErr with
        | some err => .error (.committing err)
        | none => .ok (t, user)

/-- The transaction as one step; what is not committed has no effect. -/
def redeem (i : ℕ) (withKey : Bool) (username rawToken : String) :
    Run (Except TxError (UserRow × String)) :=
  act fun s e =>
    match redeemTx hash withKey username rawToken e s.tables with
    | .error err => (s, .error err)
    | .ok (t, user) =>
      let created := (Table.find InviteToken.tokenHash (hash rawToken) s.tables.invites).map
        fun invite => Created.mk i invite user e.now
      (⟨t, created.toList ++ s.created⟩, .ok (user, e.rawKey))

/-! ### The handlers -/

inductive Response where
  | rateLimited
  | error (status : ℕ) (msg : String)
  | page (error : String) (expired : Bool)
  | apiKey (key : String)
  | redirect (target : String)

def Response.failed : Response → Bool
  | .apiKey _ | .redirect _ => false
  | _ => true

def containsText (sub s : String) : Bool := s.toList.tails.any fun l => sub.toList.isPrefixOf l

/-- The body of `POST /api/auth/invite`, if it can be decoded. -/
structure ExchangeRequest where
  method : String
  token : String
  username : String
  password : String
  undecodable : Bool := false

def handleInviteExchange (i : ℕ) (r : ExchangeRequest) : Run Response := do
  if ← observe Env.rateLimited then pure .rateLimited
  else if r.method ≠ "POST" then pure (.error 405 "method not allowed")
  else if r.undecodable ∨ r.token = "" then pure (.error 400 "token is required")
  else if r.username = "" ∨ r.password = "" then
    pure (.error 400 "username and password are required")
  else if r.password.utf8ByteSize < 8 then
    pure (.error 400 "password must be at least 8 characters")
  else
    match ← observe Env.beginErr with
    | some _ => pure (.error 500 "internal error")
    | none =>
      match ← redeem hash i true r.username r.token with
      | .error (.consuming _) => pure (.error 500 "internal error")
      | .error .invalid => pure (.error 401 "invalid, expired, or already used token")
      | .error (.creatingUser err) =>
        if containsText "UNIQUE constraint" err then pure (.error 409 "username already taken")
        else pure (.error 500 "failed to create account")
      | .error (.creatingKey _) => pure (.error 500 "failed to create API key")
      | .error (.committing _) => pure (.error 500 "internal error")
      | .ok (_, rawKey) => pure (.apiKey rawKey)

/-- Whether a token is valid, without consuming it. -/
def peek (rawToken : String) : Run (Except String (Option InviteToken)) :=
  attempt (fun e : Env => e.storeErr) fun s e =>
    (s, s.tables.invites.find? (InviteToken.redeemable (hash rawToken) e.now))

/-- `/invite/{token}`, with the form if it is posted. -/
structure RedeemRequest where
  method : String
  token : String
  username : String := ""
  password : String := ""
  confirmPassword : String := ""

/-- The page with an error; the token is looked at again. -/
def renderErr (rawToken msg : String) : Run Response := do
  match ← peek hash rawToken with
  | .ok (some _) => pure (.page msg false)
  | _ => pure (.page msg true)

/-- What follows the commit: a session, or else the user has to log in. -/
def login : Run Response := do
  match ← observe Env.generateErr with
  | some _ => pure (.redirect "/login")
  | none =>
    match ← observe Env.storeErr with
    | some _ => pure (.redirect "/login")
    | none => pure (.redirect "/")

def handleInviteRedeem (i : ℕ) (r : RedeemRequest) : Run Response := do
  if r.token = "" then pure (.error 400 "Missing invite token")
  else if r.method = "GET" then
    match ← peek hash r.token with
    | .error _ => pure (.error 500 "Internal server error")
    | .ok invite => pure (.page "" invite.isNone)
  else if r.method ≠ "POST" then pure (.error 405 "Method not allowed")
  else if trimSpace r.username = "" ∨ r.password = "" then
    renderErr hash r.token "Username and password are required"
  else if r.password.utf8ByteSize < 8 then
    renderErr hash r.token "Password must be at least 8 characters"
  else if r.password ≠ r.confirmPassword then renderErr hash r.token "Passwords do not match"
  else
    match ← observe Env.beginErr with
    | some _ => pure (.error 500 "Internal server error")
    | none =>
      match ← redeem hash i false (trimSpace r.username) r.token with
      | .error (.consuming _) => pure (.error 500 "Internal server error")
      | .error .invalid => pure (.page "" true)
      | .error (.creatingUser err) =>
        if containsText "UNIQUE constraint" err then renderErr hash r.token "Username already taken"
        else renderErr hash r.token "Failed to create account"
      | .error (.creatingKey _) => pure (.error 500 "Internal server error")
      | .error (.committing _) => pure (.error 500 "Internal server error")
      | .ok _ => login

end

/-! ### The system -/

inductive Attempt where
  | exchange (r : ExchangeRequest)
  | redeem (r : RedeemRequest)

def Attempt.token : Attempt → String
  | .exchange r => r.token
  | .redeem r => r.token

def Attempt.program (hash : String → String) (i : ℕ) : Attempt → Run Response
  | .exchange r => handleInviteExchange hash i r
  | .redeem r => handleInviteRedeem hash i r

/-- What administrators do meanwhile, and the regular cleanup. -/
inductive WorldEvent where
  | createAccountInvite (id tokenHash role : String) (accessLevel : Option Tier)
      (profileID : Option String) (createdBy : String) (expiresAt : Stamp)
  | deleteInvite (id : String)
  | cleanupExpired (now : Stamp)
  | deleteProfile (id : String)
  | deleteUser (id : String)

def Tables.createAccountInvite (t : Tables) (r : InviteToken) : Tables :=
  if h : r.id ∉ t.issued ∧ r.tokenHash ∉ t.invites.map InviteToken.tokenHash then
    { t with
      invites := r :: t.invites
      issued := r.id :: t.issued
      inviteIDs := nodup_cons.mpr ⟨fun hmem => by
        obtain ⟨r', hr', heq⟩ := mem_map.mp hmem
        exact h.1 (heq ▸ t.inviteIssued r' hr'), t.inviteIDs⟩
      tokenHashes := nodup_cons.mpr ⟨h.2, t.tokenHashes⟩
      inviteIssued := forall_mem_cons.mpr
        ⟨mem_cons_self, fun r' hr' => mem_cons_of_mem _ (t.inviteIssued r' hr')⟩ }
  else t

def worldTables : WorldEvent → Tables → Tables
  | .createAccountInvite id tokenHash role accessLevel profileID createdBy expiresAt, t =>
    t.createAccountInvite
      { id, tokenHash, role, profileID, createdBy, expiresAt
        accessLevel := some (accountLevel role accessLevel) }
  | .deleteInvite id, t => t.filterInvites fun r => r.id ≠ id
  | .cleanupExpired now, t =>
    t.mapInvites
      (fun r =>
        if r.status = .pending ∧ r.expiresAt.textBefore now then { r with status := .expired }
        else r)
      (fun r => by split <;> rfl) (fun r => by split <;> rfl)
  | .deleteProfile id, t =>
    { t.mapInvites (fun r => { r with profileID := Directory.setNull id r.profileID })
        (fun _ => rfl) (fun _ => rfl) with
      directory := (t.directory.deleteProfile none id).1 }
  | .deleteUser id, t =>
    -- an invite refers to the administrator who has made it
    if t.invites.any fun r => r.createdBy = id then t
    else
      { t.mapInvites
          (fun r => { r with redeemedUserID := Directory.setNull id r.redeemedUserID })
          (fun _ => rfl) (fun _ => rfl) with
        directory := (t.directory.deleteUser none id).1 }

def world (ev : WorldEvent) (s : State) : State := { s with tables := worldTables ev s.tables }

def redemptions (hash : String → String) (t : Tables) (attempts : List Attempt) :
    Pool State Env Response :=
  ⟨⟨t, []⟩, attempts.mapIdx fun i a => a.program hash i⟩

end ArcRelay.Invite
