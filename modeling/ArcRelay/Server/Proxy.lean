import ArcRelay.Mcp.Protocol

/-!
# The proxy handler

`handleMCPProxy` of `internal/server/http.go` takes what a user posts to
`/mcp/{server}`, decides whether it is a request or a notification, checks the access of a
request and hands the message to the backend of the server.  No middleware changes or
blocks a request on its way, so the message that leaves the check is the message the
backend gets.

The check and the backend do not read the same thing.  A message without an `id` is
handed over unchecked, and the check of a request reads the name of the endpoint up to
letter case, so a second key can hide the name the backend will use.  `onlyPermitted_iff`
says exactly when a message for an endpoint gets past that the user may not call.

* `Unchecked`, `Misread`: the two ways past the check.
* `onlyPermitted_iff`, `reader_calls_delete_all`: there are no others, and both are open.
-/

namespace ArcRelay.Proxy

open Access Json Mcp

inductive Backend where
  | stdio | http | remote

structure Server where
  servers : List (String × String)
  backends : List (String × Backend)
  tiers : AccessStore
  permissions : List ProfilePermission

/-- How a post ends, as far as the relay decides it: an HTTP error, a JSON-RPC error, or
a message that is handed to a backend. -/
inductive Outcome where
  | httpError (status : ℕ) (error : String)
  | denied (id : Option Bytes) (message : String)
  | notified (backend : Backend) (n : Notification)
  | sent (backend : Backend) (r : Request)

def Outcome.handedOver : Outcome → Option Message
  | .httpError _ _ | .denied _ _ => none
  | .notified _ n => some n.message
  | .sent _ r => some r.message

def tierName : Tier → String
  | .read => "read"
  | .write => "write"
  | .admin => "admin"

/-- The refusal of a request.  Administrators pass, and so do messages in which no
endpoint is seen. -/
def checkEndpointAccess (s : Server) (user : User) (serverID : String) (r : Request) :
    Option String :=
  if user.role = "admin" then none
  else
    match extractEndpointName r.message with
    | none => none
    | some e =>
      if e.name = "" then none
      else
        match user.profileID with
        | some profileID =>
          if checkPermission s.permissions profileID serverID e then none
          else some "access denied: not permitted by profile"
        | none =>
          let tier := s.tiers.getTier serverID e
          if checkAccess user.accessLevel tier then none
          else some ("access denied: requires " ++ tierName tier ++ " level")

/-- The first segment of the path behind `/mcp/`. -/
def serverName (path : String) : String :=
  let cs := path.toList
  let rest := if "/mcp/".toList <+: cs then cs.drop 5 else cs
  String.ofList (rest.takeWhile (· ≠ '/'))

def Server.route (s : Server) (path : String) : Except Outcome (String × Backend) :=
  let name := serverName path
  if name = "" then .error (.httpError 400 "missing server name in path")
  else
    match s.servers.lookup name with
    | none => .error (.httpError 404 ("server \"" ++ name ++ "\" not found"))
    | some serverID =>
      match s.backends.lookup serverID with
      | none => .error (.httpError 503 ("server \"" ++ name ++ "\" is not running"))
      | some backend => .ok (serverID, backend)

def handleBody (s : Server) (user : User) (serverID : String) (backend : Backend) (body : Bytes) :
    Outcome :=
  match members body with
  | none => .httpError 400 "invalid JSON"
  | some ms =>
    -- what has no member `id` is a notification, and is not checked
    if exactField "id" ms = none then .notified backend (decodeNotification ms)
    else
      match decodeRequest ms with
      | none => .httpError 400 "invalid JSON-RPC request"
      | some r =>
        match checkEndpointAccess s user serverID r with
        | some message => .denied r.id message
        | none => .sent backend r

def handleMCPProxy (s : Server) (user : User) (httpMethod path : String) (body : Bytes) :
    Outcome :=
  if httpMethod ≠ "POST" then .httpError 405 "method not allowed, use POST"
  else
    match s.route path with
    | .error out => out
    | .ok (serverID, backend) => handleBody s user serverID backend body

/-! ### What gets past the check -/

def Permits (s : Server) (user : User) (serverID : String) (m : Message) : Prop :=
  ∀ e, m.endpoint = some e → user.permitted s.tiers s.permissions serverID e = true

def OnlyPermitted (s : Server) (user : User) (path : String) (body : Bytes) : Prop :=
  ∀ serverID backend, s.route path = .ok (serverID, backend) →
    ∀ m, (handleMCPProxy s user "POST" path body).handedOver = some m → Permits s user serverID m

/-- The first way past the check: the body has no member `id`, and names an endpoint that
is not permitted. -/
def Unchecked (s : Server) (user : User) (serverID : String) (body : Bytes) : Prop :=
  ∃ ms, members body = some ms ∧ exactField "id" ms = none ∧
    ¬ Permits s user serverID (decodeNotification ms).message

/-- The second way: the body is a request that names an endpoint that is not permitted,
but the name the relay reads is empty or that of an endpoint that is. -/
def Misread (s : Server) (user : User) (serverID : String) (body : Bytes) : Prop :=
  ∃ ms r, members body = some ms ∧ exactField "id" ms ≠ none ∧ decodeRequest ms = some r ∧
    ¬ Permits s user serverID r.message ∧
    ∀ e, extractEndpointName r.message = some e →
      e.name = "" ∨ user.permitted s.tiers s.permissions serverID e = true

variable {s : Server} {user : User} {serverID : String} {body : Bytes}

/-- **What the check lets pass**: a message without a name for it, or one whose name is
permitted. -/
theorem checkEndpointAccess_eq_none {r : Request} (hrole : user.role ≠ "admin") :
    checkEndpointAccess s user serverID r = none ↔
      ∀ e, extractEndpointName r.message = some e →
        e.name = "" ∨ user.permitted s.tiers s.permissions serverID e = true := by
  unfold checkEndpointAccess User.permitted
  rw [if_neg hrole]
  cases extractEndpointName r.message with
  | none => simp
  | some e => ?_
  by_cases hname : e.name = ""
  · simp [hname]
  cases user.profileID with
  | none | some _ => simp [hname]

theorem handedOver_handleBody {backend : Backend} (hrole : user.role ≠ "admin") {m : Message} :
    (handleBody s user serverID backend body).handedOver = some m ↔
      ∃ ms, members body = some ms ∧
        ((exactField "id" ms = none ∧ m = (decodeNotification ms).message) ∨
          exactField "id" ms ≠ none ∧ ∃ r, decodeRequest ms = some r ∧ m = r.message ∧
            ∀ e, extractEndpointName r.message = some e →
              e.name = "" ∨ user.permitted s.tiers s.permissions serverID e = true) := by
  unfold handleBody
  cases members body with
  | none => simp [Outcome.handedOver]
  | some ms => ?_
  dsimp only
  by_cases hid : exactField "id" ms = none
  · -- a notification: no check is made
    rw [if_pos hid]
    constructor
    · intro h
      cases h
      exact ⟨ms, rfl, .inl ⟨hid, rfl⟩⟩
    rintro ⟨ms', hms, ⟨-, rfl⟩ | ⟨hsome, -⟩⟩
    · cases hms
      rfl
    · cases hms
      exact absurd hid hsome
  · rw [if_neg hid]
    cases hreq : decodeRequest ms with
    | none => simp [hid, hreq, Outcome.handedOver]
    | some r => ?_
    dsimp only
    cases hcheck : checkEndpointAccess s user serverID r with
    | none =>
      have hpass := (checkEndpointAccess_eq_none hrole).mp hcheck
      constructor
      · intro h
        cases h
        exact ⟨ms, rfl, .inr ⟨hid, r, hreq, rfl, hpass⟩⟩
      rintro ⟨ms', hms, ⟨hno, -⟩ | ⟨-, r', hreq', rfl, -⟩⟩
      · cases hms
        exact absurd hno hid
      cases hms
      rw [hreq] at hreq'
      cases hreq'
      rfl
    | some message =>
      constructor
      · intro h
        cases h
      rintro ⟨ms', hms, ⟨hno, -⟩ | ⟨-, r', hreq', rfl, hpass⟩⟩
      · cases hms
        exact absurd hno hid
      cases hms
      rw [hreq] at hreq'
      cases hreq'
      rw [(checkEndpointAccess_eq_none hrole).mpr hpass] at hcheck
      cases hcheck

/-- **The handler hands over only what is permitted if and only if the message takes
neither way past the check.** -/
theorem onlyPermitted_iff (s : Server) (user : User) (path : String) (body : Bytes)
    (hrole : user.role ≠ "admin") :
    OnlyPermitted s user path body ↔
      ∀ serverID backend, s.route path = .ok (serverID, backend) →
        ¬ Unchecked s user serverID body ∧ ¬ Misread s user serverID body := by
  have hbody : ∀ serverID backend, s.route path = .ok (serverID, backend) →
      handleMCPProxy s user "POST" path body = handleBody s user serverID backend body := by
    intro serverID backend hroute
    unfold handleMCPProxy
    rw [if_neg (by simp), hroute]
  constructor
  · intro h serverID backend hroute
    have hall := h serverID backend hroute
    rw [hbody serverID backend hroute] at hall
    constructor
    · rintro ⟨ms, hms, hid, hbad⟩
      exact hbad (hall _ ((handedOver_handleBody hrole).mpr ⟨ms, hms, .inl ⟨hid, rfl⟩⟩))
    rintro ⟨ms, r, hms, hid, hreq, hbad, hpass⟩
    exact hbad (hall _ ((handedOver_handleBody hrole).mpr
      ⟨ms, hms, .inr ⟨hid, r, hreq, rfl, hpass⟩⟩))
  · intro h serverID backend hroute m hm
    obtain ⟨hunchecked, hmisread⟩ := h serverID backend hroute
    rw [hbody serverID backend hroute] at hm
    by_contra hbad
    obtain ⟨ms, hms, ⟨hid, rfl⟩ | ⟨hid, r, hreq, rfl, hpass⟩⟩ := (handedOver_handleBody hrole).mp hm
    · exact hunchecked ⟨ms, hms, hid, hbad⟩
    · exact hmisread ⟨ms, r, hms, hid, hreq, hbad, hpass⟩

/-! ### The two ways on a concrete server -/

def filesServer : Server where
  servers := [("files", "s1")]
  backends := [("s1", .stdio)]
  tiers :=
    { rows := [⟨"s1", ⟨.tool, "delete_all"⟩, .admin, true⟩,
        ⟨"s1", ⟨.tool, "read_file"⟩, .read, true⟩]
      keys := by decide }
  permissions := []

def reader : User where
  role := "user"
  accessLevel := .read
  profileID := none

def callWithoutID : Bytes :=
  utf8 ("\x7b\"jsonrpc\":\"2.0\",\"method\":\"tools/call\"," ++
    "\"params\":\x7b\"name\":\"delete_all\"\x7d\x7d")

def callWithTwoNames : Bytes :=
  utf8 ("\x7b\"jsonrpc\":\"2.0\",\"id\":1,\"method\":\"tools/call\"," ++
    "\"params\":\x7b\"name\":\"delete_all\",\"Name\":\"read_file\"\x7d\x7d")

theorem onlyPermitted_iff_reader :
    reader.role ≠ "admin" ∧ (OnlyPermitted filesServer reader "/mcp/files" callWithoutID ↔
      ∀ serverID backend, filesServer.route "/mcp/files" = .ok (serverID, backend) →
        ¬ Unchecked filesServer reader serverID callWithoutID ∧
          ¬ Misread filesServer reader serverID callWithoutID) :=
  ⟨by decide, onlyPermitted_iff filesServer reader "/mcp/files" callWithoutID (by decide)⟩

/-- **Both ways lead to a tool for administrators.** -/
theorem reader_calls_delete_all :
    ¬ OnlyPermitted filesServer reader "/mcp/files" callWithoutID ∧
      ¬ OnlyPermitted filesServer reader "/mcp/files" callWithTwoNames := by
  have hroute : filesServer.route "/mcp/files" = .ok ("s1", .stdio) := by rfl
  constructor
  · intro h
    have hm : (handleMCPProxy filesServer reader "POST" "/mcp/files" callWithoutID).handedOver =
        some ⟨"tools/call", some (utf8 "\x7b\"name\":\"delete_all\"\x7d")⟩ := by decide +kernel
    have hno := h "s1" .stdio hroute _ hm ⟨.tool, "delete_all"⟩ (by decide +kernel)
    revert hno
    decide
  intro h
  have hm : (handleMCPProxy filesServer reader "POST" "/mcp/files" callWithTwoNames).handedOver =
      some ⟨"tools/call", some (utf8
        "\x7b\"name\":\"delete_all\",\"Name\":\"read_file\"\x7d")⟩ := by decide +kernel
  have hno := h "s1" .stdio hroute _ hm ⟨.tool, "delete_all"⟩ (by decide +kernel)
  revert hno
  decide

end ArcRelay.Proxy
