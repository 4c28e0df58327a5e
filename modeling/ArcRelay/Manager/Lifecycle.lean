import ArcRelay.Lib.Locked
import ArcRelay.OAuth.Manager

/-!
# The life of a backend

The proxy manager (`internal/proxy/proxy.go`) has a map of backends in memory: where there is a
backend for a server, requests for it are sent there.  The row of the server says the same in
another way: its status is `running`, or it is not.  Starting and stopping change both under
the mutex of the manager.  The health monitor (`internal/proxy/health.go`) reads and writes the
status without it and may start a server anew; an edit of the server (`handleServerEdit` in
`internal/web/handlers.go`) writes back the status it has read; an update through the API
(`updateServer` in `internal/server/http.go`) writes the status that is in the request.

This file has these operations on one server.  Each statement on the database, each look at
the map and each call of something outside is one step.
-/

namespace ArcRelay.Lifecycle

open Locked
open OAuth (RemoteConfig mentions)

/-! ### The row -/

/-- The types of servers. -/
inductive ServerType where
  | stdio | http | remote
  deriving DecidableEq

/-- The values of `status`. -/
inductive ServerStatus where
  | stopped | starting | running | error
  deriving DecidableEq

/-- The values of `health`. -/
inductive HealthStatus where
  | healthy | unhealthy | unknown
  deriving DecidableEq

/-- What an image is built from. -/
structure StdioBuildConfig where
  runtime : String := ""
  package : String := ""
  version : String := ""
  gitURL : String := ""
  gitRef : String := ""
  dockerfile : String := ""
  deriving DecidableEq

/-- A server in a container: an image, or how to build one. -/
structure StdioConfig where
  image : String := ""
  build : Option StdioBuildConfig := none
  deriving DecidableEq

/-- A server with a URL, or an image. -/
structure HTTPConfig where
  image : String := ""
  url : String := ""
  deriving DecidableEq

/-- A configuration is a text; this is what it decodes into, if it does, for each type of
server. -/
structure Config where
  stdio : Option StdioConfig
  http : Option HTTPConfig
  remote : Option RemoteConfig
  deriving DecidableEq

/-- The text of a configuration has no field that another type would not decode. -/
def StdioConfig.marshal (cfg : StdioConfig) : Config :=
  ⟨some cfg, some { image := cfg.image }, some ⟨"", {}⟩⟩

@[inherit_doc StdioConfig.marshal]
def marshalRemote (cfg : RemoteConfig) : Config := ⟨some {}, some { url := cfg.url }, some cfg⟩

/-- A row of `servers`. -/
structure Server where
  name : String
  serverType : ServerType
  config : Config
  status : ServerStatus
  errorMsg : String := ""
  health : HealthStatus := .unknown
  healthError : String := ""
  deriving DecidableEq

/-- The configuration decodes for the type of the server. -/
def Server.readable (srv : Server) : Bool :=
  match srv.serverType with
  | .stdio => srv.config.stdio.isSome
  | .http => srv.config.http.isSome
  | .remote => srv.config.remote.isSome

/-- The name of a repository, from its URL or from `host:user/repository`. -/
def repoNameFromURL (u : String) : String :=
  let afterLast (c : Char) (l : List Char) := (l.reverse.takeWhile (· ≠ c)).reverse
  let u := if (u.toList.drop 1).contains ':' ∧ mentions u "://" = false then afterLast ':' u.toList
    else u.toList
  let u := if ".git".toList.isSuffixOf u then u.take (u.length - 4) else u
  let u := afterLast '/' u
  if u = [] then "unknown" else String.ofList u

/-- The tag says where the source is from and its version. -/
def StdioBuildConfig.buildImageTag (b : StdioBuildConfig) : String :=
  let source :=
    if b.package = "" ∧ b.gitURL ≠ "" then repoNameFromURL b.gitURL else b.package
  let name := source.toList.map fun r =>
    if ('a' ≤ r ∧ r ≤ 'z') ∨ ('0' ≤ r ∧ r ≤ '9') ∨ r = '-' ∨ r = '.' ∨ r = '/' then r
    else if 'A' ≤ r ∧ r ≤ 'Z' then Char.ofNat (r.toNat + 32)
    else '-'
  let name := ((name.dropWhile (· = '-')).reverse.dropWhile (· = '-')).reverse
  let version :=
    if b.version = "" ∧ b.gitRef ≠ "" then
      String.ofList (b.gitRef.toList.map fun r => if r = '/' then '-' else r)
    else b.version
  "arc-relay-build/" ++ String.ofList name ++ ":" ++ if version = "" then "latest" else version

/-- Lower-case letters and digits, with hyphens between them, at least two. -/
def slugPattern (name : String) : Bool :=
  let alnum (c : Char) : Bool := ('a' ≤ c ∧ c ≤ 'z') ∨ ('0' ≤ c ∧ c ≤ '9')
  let l := name.toList
  decide (2 ≤ l.length) && l.all (fun c => alnum c || c == '-') && l.head?.any alnum &&
    l.getLast?.any alnum

/-- The complaint about a name, if there is one. -/
def validateSlug (name : String) : Option String :=
  if name = "" then some "slug name is required"
  else if slugPattern name then none
  else some "slug must be lowercase alphanumeric with hyphens, at least 2 characters"

/-! ### The state -/

/-- What a started server is reached through. -/
inductive Backend where
  | stdioBridge (containerID : String)
  | httpProxy (url : String)
  | remoteProxy (cfg : RemoteConfig)

/-- What the monitor knows of a server. -/
structure HealthMonitor where
  failCount : ℕ := 0
  lastRecover : Option ℕ := none
  recoverAttempts : ℕ := 0
  recovering : Bool := false

/-- What happened, for the specification only. -/
inductive Entry where
  | wrote (status : ServerStatus) (registered : Bool)
  /-- A status could not be written; what the row said instead, and whether there was a
  backend. -/
  | lost (status : ServerStatus) (registered : Bool)
  /-- The backend was taken away to be started anew; what the row said. -/
  | retried (status : ServerStatus) (srv : Server)
  /-- The process began, with this status, and read this. -/
  | listed (status : ServerStatus) (srv : Option Server)

structure State where
  row : Server
  backend : Option Backend := none
  containerID : Option String := none
  monitor : HealthMonitor := {}
  log : List Entry := []

structure Env where
  now : ℕ := 0
  storeErr : Option String := none
  /-- What a call of something outside returns: a container id, a port, an answer. -/
  reply : Except String String := .ok ""
  /-- What is found outside: the image, the Dockerfile, tokens. -/
  found : Bool := false

/-- An operation, under the mutex or not. -/
abbrev Op := Code State Env

/-! ### Single steps -/

def get : Op (Except String Server) :=
  Code.act fun s e =>
    match e.storeErr with
    | some err => (s, .error err)
    | none => (s, .ok s.row)

/-- Errors of a status write are passed over. -/
def updateStatus (status : ServerStatus) (errMsg : String) : Op Unit :=
  Code.act fun s e =>
    match e.storeErr with
    | some _ => ({ s with log := .lost s.row.status s.backend.isSome :: s.log }, ())
    | none => ({ s with row := { s.row with status := status, errorMsg := errMsg } }, ())

@[inherit_doc updateStatus]
def updateHealth (health : HealthStatus) (healthError : String) : Op Unit :=
  Code.act fun s e =>
    match e.storeErr with
    | some _ => (s, ())
    | none => ({ s with row := { s.row with health := health, healthError := healthError } }, ())

@[inherit_doc updateStatus]
def updateConfig (config : Config) : Op Unit :=
  Code.act fun s e =>
    match e.storeErr with
    | some _ => (s, ())
    | none => ({ s with row := { s.row with config := config } }, ())

/-- What is written of a row; there is no type or no status if the table refuses the text. -/
structure Update where
  name : String
  serverType : Option ServerType
  config : Config
  status : Option ServerStatus
  errorMsg : String := ""

/-- `Update` of the store.  The health of the server stays. -/
def update (u : Update) : Op (Except String Unit) :=
  Code.act fun s e =>
    match e.storeErr, u.serverType, u.status with
    | some err, _, _ =>
      (s, .error (if mentions err "UNIQUE constraint failed" then "server slug already exists"
        else "updating server: " ++ err))
    | none, some serverType, some status =>
      ({ s with
          row := { s.row with
            name := u.name, serverType := serverType, config := u.config, status := status,
            errorMsg := u.errorMsg }
          log := .wrote status s.backend.isSome :: s.log }, .ok ())
    | none, _, _ => (s, .error "updating server: CHECK constraint failed")

/-- A call of something outside; if it fails, the error is left in the row. -/
def orMark (note text : String) (k : String → Op (Except String Unit)) :
    Op (Except String Unit) := do
  match ← Code.observe Env.reply with
  | .ok reply => k reply
  | .error err =>
    updateStatus .error (note ++ err)
    pure (.error (text ++ ": " ++ err))

/-- The server is reached through this backend from now on. -/
def connect (backend : Backend) (containerID : Option String) : Op (Except String Unit) := do
  Code.set fun s =>
    { s with backend := some backend, containerID := containerID.or s.containerID }
  updateStatus .running ""
  pure (.ok ())

/-! ### The manager -/

/-- The tag is written into the configuration. -/
def persistImage (cfg : StdioConfig) (tag : String) : Op (Except String Unit) := do
  updateConfig { cfg with image := tag }.marshal
  pure (.ok ())

def buildFromTemplate (k : Op (Except String Unit)) : Op (Except String Unit) :=
  orMark "Dockerfile generation failed: " "generating Dockerfile" fun _ =>
    orMark "Image build failed: " "building image" fun _ => k

def buildFromGitRepo (cfg : StdioConfig) (tag : String) : Op (Except String Unit) :=
  orMark "Invalid git URL: " "invalid git URL" fun _ => do
    match ← Code.observe Env.reply with
    -- no place for the clone: this error is not left in the row
    | .error err => pure (.error ("creating temp dir: " ++ err))
    | .ok _ =>
      orMark "git clone failed: " "git clone failed" fun _ => do
        if ← Code.observe Env.found then
          orMark "Image build failed: " "building image from context" fun _ => persistImage cfg tag
        else buildFromTemplate (persistImage cfg tag)

def buildImageIfNeeded (cfg : StdioConfig) (build : StdioBuildConfig) (tag : String) :
    Op (Except String Unit) := do
  if ← Code.observe Env.found then pure (.ok ())
  else if build.gitURL ≠ "" ∧ build.package = "" ∧ build.dockerfile = "" then
    buildFromGitRepo cfg tag
  else buildFromTemplate (persistImage cfg tag)

def buildIfConfigured (cfg : StdioConfig) : Op (Except String Unit) :=
  match cfg.build with
  | none => pure (.ok ())
  | some build =>
    let tag := build.buildImageTag
    buildImageIfNeeded { cfg with image := if cfg.image = "" then tag else cfg.image } build tag

def startStdio (srv : Server) : Op (Except String Unit) :=
  match srv.config.stdio with
  | none => pure (.error "parsing stdio config")
  | some cfg => do
    updateStatus .starting ""
    match ← buildIfConfigured cfg with
    | .error err => pure (.error err)
    | .ok () =>
      orMark "" "pulling image" fun _ =>
        orMark "" "starting container" fun containerID =>
          orMark "" "attaching to container" fun _ =>
            connect (.stdioBridge containerID) (some containerID)

def startHTTP (srv : Server) : Op (Except String Unit) :=
  match srv.config.http with
  | none => pure (.error "parsing http config")
  | some cfg =>
    if cfg.url ≠ "" then connect (.httpProxy cfg.url) none
    else do
      updateStatus .starting ""
      orMark "" "pulling image" fun _ =>
        orMark "" "starting container" fun containerID =>
          orMark "" "getting host port" fun hostPort =>
            connect (.httpProxy ("http://127.0.0.1:" ++ hostPort)) (some containerID)

def startRemote (srv : Server) : Op (Except String Unit) :=
  match srv.config.remote with
  | none => pure (.error "parsing remote config")
  | some cfg =>
    if cfg.auth.authType = "oauth" ∧ cfg.auth.accessToken = "" then do
      if ← Code.observe Env.found then connect (.remoteProxy cfg) none
      else
        updateStatus .error "OAuth not yet authorized — click Authorize on the server detail page"
        pure (.error ("OAuth not yet authorized for server " ++ srv.name))
    else connect (.remoteProxy cfg) none

def startByType (srv : Server) : Op (Except String Unit) :=
  match srv.serverType with
  | .stdio => startStdio srv
  | .http => startHTTP srv
  | .remote => startRemote srv

def startServer (srv : Server) : Op (Except String Unit) :=
  Code.locked do
    if ← Code.act fun s _ => (s, s.backend.isSome) then
      pure (.error ("server " ++ srv.name ++ " is already running"))
    else startByType srv

def stopServer : Op Unit :=
  Code.locked do
    Code.set fun s => { s with backend := none }
    Code.set fun s => { s with containerID := none }
    updateStatus .stopped ""
    updateHealth .unknown ""

def retryServer (srv : Server) : Op (Except String Unit) := do
  Code.locked <| Code.set fun s =>
    { s with backend := none, log := .retried s.row.status srv :: s.log }
  startServer srv

def recreateContainer : Op (Except String Unit) := do
  stopServer
  match ← get with
  | .error err => pure (.error ("failed to refresh server: " ++ err))
  | .ok updated => startServer updated

def getBackend : Op (Option Backend) := Code.locked <| Code.act fun s _ => (s, s.backend)

/-! ### The health monitor -/

/-- So many pings that fail in a row put the server into the status `error`. -/
def failThreshold : ℕ := 3

/-- Five minutes. -/
def recoveryCooldown : ℕ := 5 * 60

def maxRecoverAttempts : ℕ := 3

/-- A critical section of the monitor. -/
def onMonitor {α : Type} (f : HealthMonitor → ℕ → HealthMonitor × α) : Op α :=
  Code.act fun s e => ({ s with monitor := (f s.monitor e.now).1 }, (f s.monitor e.now).2)

def resetFailCount : Op Unit := onMonitor fun hm _ => ({ hm with failCount := 0 }, ())

def resetRecoveryState : Op Unit :=
  onMonitor fun hm _ =>
    ({ hm with failCount := 0, recoverAttempts := 0, lastRecover := none }, ())

def checkRunning : Op (Except String Unit) := do
  match ← getBackend with
  | none =>
    updateStatus .stopped "backend not found"
    updateHealth .unknown ""
    resetFailCount
    pure (.ok ())
  | some _ =>
    match ← Code.observe Env.reply with
    | .error err =>
      let count ← onMonitor fun hm _ =>
        ({ hm with failCount := hm.failCount + 1 }, hm.failCount + 1)
      updateHealth .unhealthy err
      if failThreshold ≤ count then
        updateStatus .error err
        pure (.ok ())
      else pure (.ok ())
    | .ok _ =>
      resetFailCount
      updateHealth .healthy ""
      pure (.ok ())

def checkHealth : Op (Except String Unit) := do
  match ← getBackend with
  | none => pure (.error "no backend available")
  | some _ =>
    match ← Code.observe Env.reply with
    | .error err =>
      updateHealth .unhealthy err
      pure (.error err)
    | .ok _ =>
      updateHealth .healthy ""
      pure (.ok ())

/-- There is nothing outside to be recreated. -/
def isStatelessServer (srv : Server) : Bool :=
  match srv.serverType with
  | .remote => true
  | .http => srv.config.http.any (·.url ≠ "")
  | .stdio => false

/-- Whether a recovery is due; one that is not stateless is noted as in progress.  The clock is
read twice, `since` for the pause and `now` for the note. -/
def HealthMonitor.claim (stateless : Bool) (hm : HealthMonitor) (since now : ℕ) :
    HealthMonitor × Bool :=
  if hm.recovering then (hm, false)
  else if hm.lastRecover.any fun last => since - last < recoveryCooldown then (hm, false)
  else if maxRecoverAttempts ≤ hm.recoverAttempts then (hm, false)
  else
    ({ hm with
        lastRecover := some now
        recoverAttempts := hm.recoverAttempts + 1
        recovering := !stateless }, true)

def tryRecover (srv : Server) : Op (Except String Unit) := do
  if ← onMonitor fun hm now => hm.claim (isStatelessServer srv) now now then
    if isStatelessServer srv then
      match ← retryServer srv with
      | .error err => pure (.error err)
      | .ok () =>
        resetRecoveryState
        pure (.ok ())
    else
      match ← recreateContainer with
      | .error err =>
        onMonitor fun hm _ => ({ hm with recovering := false }, ())
        pure (.error err)
      | .ok () =>
        resetRecoveryState
        onMonitor fun hm _ => ({ hm with recovering := false }, ())
        pure (.ok ())
  else pure (.ok ())

/-- One round of the monitor, as far as it is about this server. -/
def checkAll : Op (Except String Unit) := do
  match ← get with
  | .error err => pure (.error err)
  | .ok srv =>
    match srv.status with
    | .running => checkRunning
    | .error => tryRecover srv
    | .stopped =>
      if srv.health ≠ .unknown then
        updateHealth .unknown ""
        pure (.ok ())
      else pure (.ok ())
    | .starting => pure (.ok ())

/-! ### Changes of the row -/

/-- What an edit keeps of the old configuration: the image that was built if the package is
the same; the tokens and the registration. -/
def preserveConfig (old : Server) (serverType : ServerType) (config : Config) : Config :=
  match serverType with
  | .stdio =>
    match old.config.stdio, config.stdio with
    | some oldCfg, some newCfg =>
      match newCfg.build, oldCfg.build with
      | some newBuild, some oldBuild =>
        if oldCfg.image ≠ "" ∧ newBuild.package = oldBuild.package ∧
            newBuild.version = oldBuild.version ∧ newBuild.runtime = oldBuild.runtime then
          { newCfg with image := oldCfg.image }.marshal
        else config
      | _, _ => config
    | _, _ => config
  | .http => config
  | .remote =>
    match old.config.remote, config.remote with
    | some oldCfg, some newCfg => marshalRemote (oldCfg.preserve newCfg)
    | _, _ => config

structure Form where
  name : String
  serverType : ServerType
  config : Config

/-- A form that cannot be read is shown again. -/
def handleServerEdit (form : Except String Form) : Op (Except String Unit) := do
  match ← get with
  | .error err => pure (.error err)
  | .ok srv =>
    match form with
    | .error err => pure (.error err)
    | .ok form =>
      match validateSlug form.name with
      | some err => pure (.error err)
      | none =>
        update
          { name := form.name
            serverType := some form.serverType
            config := preserveConfig srv form.serverType form.config
            status := some srv.status
            errorMsg := srv.errorMsg }

def updateServer (body : Except String Update) : Op (Except String Unit) := do
  match ← get with
  | .error _ => pure (.error "server not found")
  | .ok _ =>
    match body with
    | .error _ => pure (.error "invalid request body")
    | .ok u =>
      match validateSlug u.name with
      | some err => pure (.error err)
      | none => update u

/-! ### The system -/

def autoStart : Op (Except String Unit) := do
  match ← Code.act fun s e =>
    let listed := if e.storeErr.isSome then none else some s.row
    ({ s with log := .listed s.row.status listed :: s.log }, listed) with
  | none => pure (.error "failed to list servers for auto-start")
  | some srv => startServer srv

/-- The operations that are called from outside. -/
inductive Call where
  /-- The caller of a start has read the row at some time. -/
  | start (srv : Server)
  | stop
  | retry (srv : Server)
  | recreate
  | check
  | health
  | edit (form : Except String Form)
  | update (body : Except String Update)

def Call.code : Call → Op (Except String Unit)
  | .start srv => startServer srv
  | .stop => do
    stopServer
    pure (.ok ())
  | .retry srv => retryServer srv
  | .recreate => recreateContainer
  | .check => checkAll
  | .health => checkHealth
  | .edit form => handleServerEdit form
  | .update body => updateServer body

/-- The process as it begins: the row is as it was left, and there is no backend. -/
def boot (row : Server) : System State Env (Except String Unit) where
  state := { row := row }
  threads := [autoStart]

abbrev run (row : Server) (events : List (Event Call Env)) :
    System State Env (Except String Unit) :=
  (boot row).exec Call.code events

end ArcRelay.Lifecycle
