import ArcRelay.Mcp.Response
import ArcRelay.Server.Discovery

/-!
# What is done with an answer

The answer of a backend is a pointer and an error.  The handler of the proxy looks at the error,
sends the pointer through the middleware of the server in reverse order
(`internal/middleware`), through the optimizer of tool lists and through the filter of the
profile, and writes what is left (`handleMCPProxy` in `internal/server/http.go`).  Health
checks, the enumeration and the extractor of memories look at the error and then into the
answer.

A pointer that is nil is looked into all the same, except by the archive, the filter and the
health check.  Looking into it is a panic here, and so is a slice beyond the end of a string and an
assignment to the map that the optimizer decodes from `null`.

No middleware returns an error for a response.  Regular expressions, the quoting of a name in
a log entry and the codec of tools are parameters.
-/

namespace ArcRelay.Pipeline

open Access Json Mcp

inductive Panic where
  | nilDereference
  | sliceBounds
  /-- An assignment to a map that is nil. -/
  | nilMap

def deref (resp : Option FullResponse) : Except Panic FullResponse :=
  match resp with
  | some r => .ok r
  | none => .error .nilDereference

/-- A response, or none, or an error: what `Send` returns. -/
abbrev SendResult := Except String (Option FullResponse)

/-! ### The middleware -/

structure RequestMeta where
  serverID : String
  serverName : String
  method : String
  toolName : String := ""
  userID : String := ""
  clientIP : String := ""
  requestID : String := ""

/-- What the middleware does besides: entries for the operator, calls of webhooks, and what is
put into the queue of the archive. -/
inductive Effect where
  | event (middleware eventType summary : String) (about : RequestMeta)
  | webhook (url summary : String) (about : RequestMeta)
  | archive (phase : String) (about : RequestMeta) (request : Option Request)
      (response : Option FullResponse)

/-- How names are quoted, and how a text is written inside of a JSON string. -/
structure Texts where
  goQuote : String → String
  jsonEscape : Bytes → Bytes

structure CompiledPattern where
  name : String
  matchString : Bytes → Bool
  replaceAllString : Bytes → Bytes
  action : String

structure CompiledRule where
  name : String
  /-- None for a rule about the size only. -/
  matchString : Option (Bytes → Bool)
  matchSize : ℕ
  direction : String
  action : String
  webhookURL : String

inductive Middleware where
  | sanitizer (patterns : List CompiledPattern)
  | sizer (maxBytes : ℕ) (action : String)
  | alerter (rules : List CompiledRule)
  | archive (included : String)

section

variable (t : Texts) (about : RequestMeta)

def sanitizeLoop (resp : FullResponse) : List CompiledPattern → Bytes → Bool →
    FullResponse × List Effect
  | [], resultStr, modified =>
    (if modified then { jsonrpc := resp.jsonrpc, id := resp.id, result := resultStr } else resp, [])
  | p :: ps, resultStr, modified =>
    if p.matchString resultStr = false then sanitizeLoop resp ps resultStr modified
    else if p.action = "block" then
      (newErrorResponse resp.id errCodeInternal
          ("response blocked by sanitizer: " ++ p.name ++ " pattern detected"),
        [.event "sanitizer" "blocked"
          ("Response blocked: pattern " ++ t.goQuote p.name ++ " matched") about])
    else
      let after := p.replaceAllString resultStr
      if after = resultStr then sanitizeLoop resp ps after modified
      else
        let (out, effects) := sanitizeLoop resp ps after true
        (out, .event "sanitizer" "redacted"
          ("Pattern " ++ t.goQuote p.name ++ " redacted from response") about :: effects)

def sanitize (patterns : List CompiledPattern) (resp : FullResponse) : FullResponse × List Effect :=
  if resp.error.isSome ∨ resp.result = [] then (resp, [])
  else sanitizeLoop t about resp patterns resp.result false

def truncated (size maxBytes : ℕ) (result : Bytes) : Bytes :=
  utf8 ("\x7b\"content\":[\x7b\"type\":\"text\",\"text\":\"[Response truncated: " ++
    toString size ++ " bytes exceeded " ++ toString maxBytes ++ " byte limit. First " ++
    toString maxBytes ++ " bytes shown.]\\n") ++ t.jsonEscape (result.take maxBytes) ++
    utf8 "\"\x7d]\x7d"

def size (maxBytes : ℕ) (action : String) (resp : FullResponse) : FullResponse × List Effect :=
  if resp.error.isSome ∨ resp.result = [] then (resp, [])
  else
    let size := resp.result.length
    if size ≤ maxBytes then (resp, [])
    else
      let summary := "Response size " ++ toString size ++ " bytes exceeds limit " ++
        toString maxBytes ++ " bytes"
      if action = "block" then
        (newErrorResponse resp.id errCodeInternal
            ("response too large (" ++ toString size ++ " bytes, limit " ++ toString maxBytes ++
              ")"),
          [.event "sizer" "blocked" summary about])
      else if action = "truncate" then
        ({ jsonrpc := resp.jsonrpc, id := resp.id
           result := truncated t size maxBytes resp.result },
          [.event "sizer" "truncated" summary about])
      else if action = "warn" then (resp, [.event "sizer" "alert" summary about])
      else (resp, [])

def fireAlert (rule : CompiledRule) (summary : String) : List Effect :=
  .event "alerter" "alert" summary about ::
    if rule.action = "webhook" ∧ rule.webhookURL ≠ "" then [.webhook rule.webhookURL summary about]
    else []

def alert (rules : List CompiledRule) (resp : FullResponse) : FullResponse × List Effect :=
  if resp.error.isSome ∨ resp.result = [] then (resp, [])
  else
    let size := resp.result.length
    (resp, rules.flatMap fun r =>
      if r.direction ≠ "response" ∧ r.direction ≠ "both" then []
      else if (r.matchString.any fun re => re resp.result) ∨
          (0 < r.matchSize ∧ r.matchSize < size) then
        fireAlert about r ("Alert rule " ++ t.goQuote r.name ++ " matched in response: " ++
          about.method ++ " " ++ about.toolName ++ " (size=" ++ toString size ++ ")")
      else [])

/-- The archive passes the pointer on without looking into it. -/
def archiveEffects (included : String) (req : Request) (resp : Option FullResponse) : List Effect :=
  if included = "request" then []
  else if included = "both" then [.archive "exchange" about (some req) resp]
  else [.archive "response" about none resp]

def Middleware.processResponse (req : Request) (resp : Option FullResponse) :
    Middleware → Except Panic (Option FullResponse × List Effect)
  | .sanitizer patterns => (deref resp).map fun r => Prod.map some id (sanitize t about patterns r)
  | .sizer maxBytes action =>
    (deref resp).map fun r => Prod.map some id (size t about maxBytes action r)
  | .alerter rules => (deref resp).map fun r => Prod.map some id (alert t about rules r)
  | .archive included => .ok (resp, archiveEffects about included req resp)

/-- The pipeline, on the middleware in reverse order. -/
def processResponse (req : Request) : List Middleware → Option FullResponse →
    Except Panic (Option FullResponse × List Effect)
  | [], resp => .ok (resp, [])
  | m :: ms, resp => do
    let (resp, effects) ← m.processResponse t about req resp
    let (resp, rest) ← processResponse req ms resp
    pure (resp, effects ++ rest)

end

/-! ### The optimizer -/

/-- A row of `tool_optimizations`. -/
structure Optimization where
  status : String
  toolsHash : String
  optimizedTools : Bytes

structure Optimizer (T : Type) where
  optimizeEnabled : String → Except String (Option Bool)
  optimization : String → Except String (Option Optimization)
  toolsOf : Bytes → Option (List T)
  optimizedOf : Bytes → Option (List T)
  toolName : T → String
  hashTools : List T → String
  marshalTools : List T → Except String Bytes

def Optimizer.replace {T : Type} (o : Optimizer T) (original optimized : List T) : List T :=
  original.map fun t => (optimized.reverse.find? fun u => o.toolName u = o.toolName t).getD t

def sliceTo (n : ℕ) (s : String) : Except Panic String :=
  if n ≤ s.utf8ByteSize then .ok (String.ofList (s.toList.take n)) else .error .sliceBounds

/-- The response with the tools that `opt` has for them. -/
def Optimizer.patch {T : Type} (o : Optimizer T) (opt : Optimization) (r : FullResponse) :
    Except Panic FullResponse :=
  if r.error.isSome ∨ r.result = [] then pure r
  else
    match o.toolsOf r.result with
    | none => pure r
    | some original =>
      let liveHash := o.hashTools original
      if liveHash ≠ opt.toolsHash then do
        -- both are cut for the log
        let _ ← sliceTo 12 liveHash
        let _ ← sliceTo 12 opt.toolsHash
        pure r
      else
        match o.optimizedOf opt.optimizedTools, members r.result with
        | some optimized, some resultObj =>
          match o.marshalTools (o.replace original optimized) with
          | .error _ => pure r
          | .ok toolsJSON =>
            if parse r.result = some .null then .error .nilMap
            else
              pure { r with result := writeObject (mapOf (resultObj ++ [("tools", toolsJSON)])) }
        | _, _ => pure r

def Optimizer.processResponse {T : Type} (o : Optimizer T) (serverID method : String)
    (resp : Option FullResponse) : Except Panic (Option FullResponse) :=
  if method ≠ "tools/list" then pure resp
  else
    match o.optimizeEnabled serverID, o.optimization serverID with
    | .ok (some true), .ok (some opt) =>
      if opt.status ≠ "ready" then pure resp
      else deref resp >>= fun r => (o.patch opt r).map some
    | _, _ => pure resp

/-! ### The callers of `Send` -/

structure Handler (T : Type) where
  texts : Texts
  server : Proxy.Server
  serverID : String
  about : RequestMeta
  pipeline : List Middleware
  optimizer : Option (Optimizer T)
  user : Option User
  /-- The permissions of the profile cannot be read. -/
  readFails : Bool

/-- What is written to the client; a pointer that is nil is written as `null`. -/
inductive Written where
  | error (resp : FullResponse)
  | encoded (resp : Option FullResponse)

def Handler.filter {T : Type} (h : Handler T) (method : String) (resp : Option FullResponse) :
    Option FullResponse :=
  match h.user with
  | none => resp
  | some user =>
    if user.role ≠ "admin" ∧ user.profileID.isSome then
      resp.map fun r =>
        { r with
          toResponse :=
            Proxy.filterListResponse h.server h.readFails r.toResponse method user h.serverID }
    else resp

def Handler.optimize {T : Type} (h : Handler T) (method : String) (resp : Option FullResponse) :
    Except Panic (Option FullResponse) :=
  match h.optimizer with
  | some o => if method = "tools/list" then o.processResponse h.serverID method resp else pure resp
  | none => pure resp

/-- `handleMCPProxy` from the answer on. -/
def Handler.respond {T : Type} (h : Handler T) (req : Request) (answer : SendResult) :
    Except Panic Written :=
  match answer with
  | .error err => .ok (.error (newErrorResponse req.id errCodeInternal ("proxy error: " ++ err)))
  | .ok resp => do
    let (resp, _) ← processResponse h.texts h.about req h.pipeline.reverse resp
    let resp ← h.optimize req.method resp
    pure (.encoded (h.filter req.method resp))

def pingServer (answer : SendResult) : Option String :=
  match answer with
  | .error err => some ("ping failed: " ++ err)
  | .ok none => some "no response to ping"
  | .ok (some _) => none

/-- The steps of the enumeration and the extractor of memories: the error comes first, and then
they look into the response. -/
def onAnswer {α : Type} (use : Sender → Except String α) (answer : SendResult) :
    Except Panic (Except String α) :=
  match answer with
  | .error err => .ok (use fun _ => .error err)
  | .ok resp => (deref resp).map fun r => use fun _ => .ok r.toResponse

/-! ### An answer that is there -/

/-- Nobody has looked into a pointer that is nil. -/
def NoNil {α : Type} (x : Except Panic α) : Prop := x ≠ .error .nilDereference

variable {α β T : Type} {r : FullResponse} {answer : SendResult} {x : Except Panic α}

theorem noNil_ok (a : α) : NoNil (.ok a : Except Panic α) := nofun

theorem NoNil.bind {f : α → Except Panic β} (hx : NoNil x) (hf : ∀ a, NoNil (f a)) :
    NoNil (x >>= f) := by
  cases x with
  | ok a => exact hf a
  | error e =>
    intro h
    exact hx (congrArg Except.error (Except.error.inj h))

theorem NoNil.map (hx : NoNil x) (f : α → β) : NoNil (x.map f) :=
  hx.bind fun a => noNil_ok (f a)

theorem noNil_sliceTo (n : ℕ) (s : String) : NoNil (sliceTo n s) := by
  unfold sliceTo
  split
  · exact noNil_ok _
  · nofun

theorem Middleware.processResponse_some (t : Texts) (about : RequestMeta) (req : Request)
    (m : Middleware) (r : FullResponse) :
    ∃ r' effects, m.processResponse t about req (some r) = .ok (some r', effects) := by
  cases m with
  | sanitizer _ | sizer _ _ | alerter _ | archive _ => exact ⟨_, _, rfl⟩

theorem processResponse_some (t : Texts) (about : RequestMeta) (req : Request)
    (ms : List Middleware) (r : FullResponse) :
    ∃ r' effects, processResponse t about req ms (some r) = .ok (some r', effects) := by
  induction ms generalizing r with
  | nil => exact ⟨r, [], rfl⟩
  | cons m ms ih => ?_
  obtain ⟨r1, effects1, h1⟩ := m.processResponse_some t about req r
  obtain ⟨r2, effects2, h2⟩ := ih r1
  refine ⟨r2, effects1 ++ effects2, ?_⟩
  rw [processResponse, h1]
  exact congrArg (· >>= fun p => pure (p.1, effects1 ++ p.2)) h2

theorem Optimizer.noNil_patch (o : Optimizer T) (opt : Optimization) (r : FullResponse) :
    NoNil (o.patch opt r) := by
  unfold Optimizer.patch
  split
  · exact noNil_ok r
  split
  · exact noNil_ok r
  dsimp only
  split
  · exact (noNil_sliceTo _ _).bind fun _ => (noNil_sliceTo _ _).bind fun _ => noNil_ok r
  split
  · split
    · exact noNil_ok r
    · split
      · nofun
      · exact noNil_ok _
  · exact noNil_ok r

theorem Optimizer.noNil_processResponse (o : Optimizer T) (serverID method : String)
    (r : FullResponse) : NoNil (o.processResponse serverID method (some r)) := by
  unfold Optimizer.processResponse
  split
  · exact noNil_ok _
  split
  · split
    · exact noNil_ok _
    · exact (o.noNil_patch _ r).map some
  · exact noNil_ok _

theorem Handler.noNil_optimize (h : Handler T) (method : String) (r : FullResponse) :
    NoNil (h.optimize method (some r)) := by
  unfold Handler.optimize
  split
  · next o _ =>
    split
    · exact o.noNil_processResponse h.serverID method r
    · exact noNil_ok _
  · exact noNil_ok _

theorem pingServer_eq_none : pingServer answer = none ↔ ∃ r, answer = .ok (some r) := by
  cases answer with
  | error err => simp [pingServer]
  | ok resp => cases resp <;> simp [pingServer]

/-- **The handler does not miss a response that is there**, nor an error. -/
theorem Handler.respond_safe (h : Handler T) (req : Request) (hanswer : answer ≠ .ok none) :
    NoNil (h.respond req answer) := by
  cases answer with
  | error err => exact noNil_ok _
  | ok resp => ?_
  cases resp with
  | none => exact absurd rfl hanswer
  | some r => ?_
  obtain ⟨r', effects, hpipe⟩ := processResponse_some h.texts h.about req h.pipeline.reverse r
  unfold Handler.respond
  dsimp only
  rw [hpipe]
  exact (h.noNil_optimize req.method r').bind fun _ => noNil_ok _

theorem onAnswer_safe (use : Sender → Except String α) (hanswer : answer ≠ .ok none) :
    NoNil (onAnswer use answer) := by
  cases answer with
  | error err => exact noNil_ok _
  | ok resp => ?_
  cases resp with
  | none => exact absurd rfl hanswer
  | some r => exact noNil_ok _

end ArcRelay.Pipeline
