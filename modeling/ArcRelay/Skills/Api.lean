import ArcRelay.Access.Directory
import ArcRelay.Skills.Upload

/-!
# The routes of the skill repository

What clients and administrators do with skills goes through a few routes under
`/api/skills` (`internal/web/skills_handlers.go`): a listing, the skills that are assigned
to the caller, and a tree of routes below the slug of a skill.  An administrator may do
everything; anybody else needs an API key with a capability, and which capability is
decided branch by branch.

A handler is a program over the database, one statement a step; an upload is the program of
`ArcRelay.Skills.Upload` on the part of the database it works on.
-/

namespace ArcRelay.Skills.Api

open Interleave Json Access Prog Table

/-! ### The database -/

structure DriftReport where
  detectedAt : ℤ
  relayVersion : String
  relayHash : String
  upstreamSHA : String
  upstreamHash : String
  commitsAhead : ℕ
  severity : String
  summary : String
  recommendedAction : String
  llmModel : String
  deriving DecidableEq

/-- A row of `skill_upstreams`. -/
structure SkillUpstream where
  skillID : ℕ
  upstreamType : String
  gitURL : String
  gitSubpath : String
  gitRef : String
  lastSeenSHA : Option String := none
  lastSeenHash : Option String := none
  lastCheckedAt : Option ℤ := none
  drift : Option DriftReport := none
  createdAt : ℤ
  updatedAt : ℤ
  deriving DecidableEq

/-- A row of `skill_assignments`. -/
structure SkillAssignment where
  skillID : ℕ
  userID : String
  version : Option String := none
  assignedBy : Option String := none
  assignedAt : ℤ
  deriving DecidableEq

structure Database where
  repo : State := {}
  upstreams : List SkillUpstream := []
  /-- The skills with `outdated = 1`. -/
  outdated : List ℕ := []
  assignments : List SkillAssignment := []
  users : List UserRow := []

inductive Detection where
  | failed
  | unchanged (newSHA : String)
  | drift (report : DriftReport)

structure Env extends Skills.Env where
  detection : Detection := .failed

abbrev Run := Prog Database Env

/-! ### Requests and responses -/

structure Caller where
  user : Option UserRow
  key : Option APIKey

structure Request where
  method : String
  path : String
  visibility : String := ""
  hard : String := ""
  contentType : String := ""
  /-- The headers `X-Clear-Upstream` and `X-Upstream`. -/
  clearUpstream : String := ""
  upstream : String := ""
  body : Bytes := []
  /-- The connection breaks before the body was read. -/
  broken : Bool := false

inductive GitURLError where
  | empty
  | leadingDash
  | transport (scheme : String)
  | transportHelper
  deriving DecidableEq

structure AssignedSkill where
  skill : Skill
  pinnedVersion : Option String
  deriving DecidableEq

structure SkillResp where
  skill : Skill
  outdated : Bool
  drift : Option DriftReport
  deriving DecidableEq

inductive Body where
  | error (msg : String)
  | invalidArchive (err : UploadError)
  | unsupportedGitURL (err : GitURLError)
  | skills (rows : List SkillResp)
  | assigned (rows : List AssignedSkill)
  | skill (row : SkillResp) (versions : List SkillVersion)
  | patched (skill : Skill) (outdated : Bool)
  | versions (rows : List SkillVersion)
  | version (row : SkillVersion)
  | uploaded (row : SkillVersion) (upstreamRecorded : Bool)
  | yanked
  | archive (slug version sha256 : String) (archive : Bytes)
  | assignments (rows : List SkillAssignment)
  | assignment (row : SkillAssignment)
  | drift (report : Option DriftReport)
  | upstream (row : SkillUpstream)
  | cleared
  | none
  deriving DecidableEq

structure Response where
  status : ℕ
  body : Body
  deriving DecidableEq

def writeJSONError (status : ℕ) (msg : String) : Response := ⟨status, .error msg⟩

def internalError : Response := writeJSONError 500 "internal error"

def methodNotAllowed : Response := writeJSONError 405 "method not allowed"

def adminRequired : Response := writeJSONError 403 "admin access required"

def unknownSubresource : Response := writeJSONError 404 "unknown subresource"

def skillNotFound : Response := writeJSONError 404 "skill not found"

/-! ### Texts -/

/-- `strings.EqualFold`, for a word of ASCII letters. -/
def equalFold (s word : String) : Bool := foldName s == foldName word

def trimPrefix (pre s : String) : String :=
  if pre.toList.isPrefixOf s.toList then String.ofList (s.toList.drop pre.toList.length) else s

def pathParts (path : String) : List String :=
  ((trimPrefix "/api/skills/" path).toList.splitOn '/').map String.ofList

def mediaType (contentType : String) : String :=
  if ';' ∈ contentType.toList then
    trimSpace (String.ofList (contentType.toList.takeWhile (· ≠ ';')))
  else contentType

def Request.read (r : Request) (limit : ℕ) : Option Bytes :=
  if r.broken ∨ limit < r.body.length then none else some r.body

/-- What stands before the first `://`. -/
def scheme : List Char → Option (List Char)
  | ':' :: '/' :: '/' :: _ => some []
  | c :: l => (scheme l).map (c :: ·)
  | [] => none

def hasDoubleColon : List Char → Bool
  | ':' :: ':' :: _ => true
  | _ :: l => hasDoubleColon l
  | [] => false

/-- `strings.ToLower`, for what becomes an ASCII letter. -/
def lowerChar (c : Char) : Char :=
  if c = Char.ofNat 0x130 then 'i' else if c = Char.ofNat 0x212a then 'k' else c.toLower

def allowedGitProtocols : List String := ["http", "https", "ssh", "git", "file"]

def validateGitURL (raw : String) : Except GitURLError Unit :=
  let s := (trimSpace raw).toList
  if s = [] then .error .empty
  else if s.head? = some '-' then .error .leadingDash
  else
    match scheme s with
    | some l =>
      let scheme := String.ofList (l.map lowerChar)
      if scheme ∈ allowedGitProtocols then .ok () else .error (.transport scheme)
    | none => if hasDoubleColon s then .error .transportHelper else .ok ()

/-! ### The store -/

def query {α : Type} (f : Database → α) : Run (Except String α) :=
  attempt (fun e : Env => e.storeErr) fun db _ => (db, f db)

variable {α β : Type} {env : ℕ → Env} {db : Database} {f : Database → α}
  {k : Except String α → Run β}

theorem alone_query (h : (env 0).storeErr = none) :
    (query f >>= k).alone env db = (k (.ok (f db))).alone (fun n => env (n + 1)) db := by
  rw [query, attempt, alone_act_bind, h]

theorem alone_query_error {err : String} (h : (env 0).storeErr = some err) :
    (query f >>= k).alone env db = (k (.error err)).alone (fun n => env (n + 1)) db := by
  rw [query, attempt, alone_act_bind, h]

def exec (f : Database → Env → Database) : Run (Except String Unit) :=
  attempt (fun e : Env => e.storeErr) fun db e => (f db e, ())

def Database.skillBySlug (db : Database) (slug : String) : Option Skill :=
  db.repo.skills.find? fun sk => sk.slug = slug

def Database.upstream (db : Database) (id : ℕ) : Option SkillUpstream :=
  find SkillUpstream.skillID id db.upstreams

def getSkillBySlug (slug : String) : Run (Except String (Option (Skill × Bool))) :=
  query fun db => (db.skillBySlug slug).map fun sk => (sk, decide (sk.id ∈ db.outdated))

def getUpstream (id : ℕ) : Run (Except String (Option SkillUpstream)) :=
  query fun db => db.upstream id

def Database.listVersions (db : Database) (id : ℕ) : List SkillVersion :=
  (db.repo.versions.filter fun v => v.skillID = id).mergeSort fun v w => w.uploadedAt ≤ v.uploadedAt

def Database.version (db : Database) (id : ℕ) (version : String) : Option SkillVersion :=
  db.repo.versions.find? fun v => v.skillID = id ∧ v.version = version

def Database.listAssignments (db : Database) (id : ℕ) : List SkillAssignment :=
  (db.assignments.filter fun a => a.skillID = id).mergeSort fun a b => a.assignedAt ≤ b.assignedAt

def Database.assignment (db : Database) (id : ℕ) (userID : String) : Option SkillAssignment :=
  db.assignments.find? fun a => a.skillID = id ∧ a.userID = userID

/-- The skills a user has access to, with the version pin if any; those that are yanked are
left out. -/
def Database.assignedForUser (db : Database) (userID : String) : List AssignedSkill :=
  let rows := db.repo.skills.filter fun sk =>
    sk.yankedAt = none ∧ (sk.visibility = "public" ∨ (db.assignment sk.id userID).isSome)
  (rows.mergeSort fun a b => a.slug ≤ b.slug).map fun sk =>
    ⟨sk, (db.assignment sk.id userID).bind SkillAssignment.version⟩

/-- An empty visibility leaves that of the skill. -/
def updateSkillMeta (id : ℕ) (displayName description visibility : String) :
    Run (Except String Unit) :=
  if visibility ∉ ["", "public", "restricted"] then pure (.error "invalid visibility")
  else
    exec fun db e =>
      { db with
        repo.skills := Table.modify Skill.id id
          (fun sk => { sk with
            displayName := displayName
            description := description
            visibility := if visibility = "" then sk.visibility else visibility
            updatedAt := e.now })
          db.repo.skills }

def yankSkill (id : ℕ) : Run (Except String Unit) :=
  exec fun db e => { db with repo := world (.yankSkill id (some e.now) e.now) db.repo }

def unyankSkill (id : ℕ) : Run (Except String Unit) :=
  exec fun db e => { db with repo := world (.yankSkill id none e.now) db.repo }

/-- The versions, the assignments and the upstream go with the skill. -/
def deleteSkillRow (id : ℕ) : Run (Except String Unit) :=
  exec fun db _ =>
    { db with
      repo.skills := delete Skill.id id db.repo.skills
      repo.versions := db.repo.versions.filter fun v => v.skillID ≠ id
      assignments := db.assignments.filter fun a => a.skillID ≠ id
      upstreams := delete SkillUpstream.skillID id db.upstreams
      outdated := db.outdated.filter (· ≠ id) }

def setVersionYanked (id : ℕ) (version : String) (yankedAt : Env → Option ℤ) :
    Run (Except String Unit) :=
  act fun db e =>
    match e.storeErr with
    | some err => (db, .error err)
    | none =>
      if (db.version id version).isNone then (db, .error "sql: no rows in result set")
      else ({ db with repo := world (.yankVersion id version (yankedAt e)) db.repo }, .ok ())

def yankVersionRow (id : ℕ) (version : String) : Run (Except String Unit) :=
  setVersionYanked id version fun e => some e.now

def unyankVersionRow (id : ℕ) (version : String) : Run (Except String Unit) :=
  setVersionYanked id version fun _ => none

/-- A row that is there keeps what the checker has found. -/
def upsertUpstreamRow (id : ℕ) (type url subpath ref : String) : Run (Except String Unit) :=
  let type := if type = "" then "git" else type
  match validateGitURL url with
  | .error _ => pure (.error "unsupported git URL")
  | .ok () =>
    let ref := if ref = "" then "HEAD" else ref
    act fun db e =>
      match e.storeErr with
      | some err => (db, .error err)
      | none =>
        if type ≠ "git" then (db, .error "CHECK constraint failed")
        else if ¬ db.repo.skills.any (fun sk => sk.id = id) then (db, .error foreignKeyFailed)
        else
          ({ db with
              upstreams := upsert SkillUpstream.skillID
                (fun u => { u with
                  upstreamType := type
                  gitURL := url
                  gitSubpath := subpath
                  gitRef := ref
                  updatedAt := e.now })
                ⟨id, type, url, subpath, ref, none, none, none, none, e.now, e.now⟩
                db.upstreams }, .ok ())

def clearUpstreamRow (id : ℕ) : Run (Except String Unit) :=
  exec fun db _ =>
    { db with
      upstreams := delete SkillUpstream.skillID id db.upstreams
      outdated := db.outdated.filter (· ≠ id) }

def clearDriftReport (id : ℕ) (latestSeenHash : String) : Run (Except String Unit) :=
  exec fun db e =>
    { db with
      upstreams := Table.modify SkillUpstream.skillID id
        (fun u => { u with
          drift := none
          lastSeenHash := some latestSeenHash
          updatedAt := e.now })
        db.upstreams
      outdated := db.outdated.filter (· ≠ id) }

def updateUpstreamCheck (id : ℕ) (sha hash : String) : Run (Except String Unit) :=
  exec fun db e =>
    { db with
      upstreams := Table.modify SkillUpstream.skillID id
        (fun u => { u with
          lastSeenSHA := some sha
          lastSeenHash := some hash
          lastCheckedAt := some e.now
          updatedAt := e.now })
        db.upstreams }

def writeDriftReport (id : ℕ) (report : DriftReport) : Run (Except String Unit) :=
  exec fun db e =>
    { db with
      upstreams := Table.modify SkillUpstream.skillID id
        (fun u => { u with
          drift := some report
          lastSeenSHA := some report.upstreamSHA
          lastSeenHash := some report.upstreamHash
          lastCheckedAt := some report.detectedAt
          updatedAt := e.now })
        db.upstreams
      outdated := id :: db.outdated.filter (· ≠ id) }

/-- Granting again replaces the version pin. -/
def assignSkillRow (a : SkillAssignment) : Run (Except String SkillAssignment) :=
  act fun db e =>
    match e.storeErr with
    | some err => (db, .error err)
    | none =>
      if ¬ (db.repo.skills.any (fun sk => sk.id = a.skillID) ∧
          db.users.any fun u => u.id = a.userID) then (db, .error foreignKeyFailed)
      else
        let a := { a with assignedAt := e.now }
        ({ db with
            assignments := upsert (fun a => (a.skillID, a.userID)) (fun _ => a) a
              db.assignments }, .ok a)

def unassignSkillRow (id : ℕ) (userID : String) : Run (Except String Unit) :=
  exec fun db _ =>
    { db with
      assignments := delete (fun a => (a.skillID, a.userID)) (id, userID) db.assignments }

/-! ### Bodies -/

/-- The header `X-Upstream`, or the body that sets an upstream. -/
structure UpstreamPayload where
  type : String
  url : String
  subpath : String
  ref : String

/-- The two shapes differ in the names of their fields. -/
def decodeUpstream (url subpath ref : String) (text : Bytes) : Option UpstreamPayload := do
  let ms ← members text
  let (type, okType) := stringField "type" ms
  let (url, okURL) := stringField url ms
  let (subpath, okSubpath) := stringField subpath ms
  let (ref, okRef) := stringField ref ms
  if okType && okURL && okSubpath && okRef then some ⟨type, url, subpath, ref⟩ else none

def upstreamHeaderPayload : Bytes → Option UpstreamPayload := decodeUpstream "url" "subpath" "ref"

def upstreamPUTBody : Bytes → Option UpstreamPayload :=
  decodeUpstream "git_url" "git_subpath" "git_ref"

structure PatchSkillBody where
  visibility : Option String
  displayName : Option String
  description : Option String

def patchSkillBody (text : Bytes) : Option PatchSkillBody := do
  let ms ← members text
  let (visibility, okVisibility) := stringPtrField "visibility" ms
  let (displayName, okName) := stringPtrField "display_name" ms
  let (description, okDescription) := stringPtrField "description" ms
  if okVisibility && okName && okDescription then some ⟨visibility, displayName, description⟩
  else none

def assignBody (text : Bytes) : Option (String × String) := do
  let ms ← members text
  let (username, okName) := stringField "username" ms
  let (version, okVersion) := stringField "version" ms
  if okName && okVersion then some (username, version) else none

/-! ### The handlers -/

def hasCapability (c : Caller) (cap : String) : Bool :=
  c.user.any (fun u => u.role = "admin") || c.key.any fun k => k.hasCapability cap

def missingCapability (cap : String) : Response :=
  writeJSONError 403 ("missing capability: " ++ cap ++ " — admin must issue an API key with " ++
    "this capability before this endpoint will accept the request")

def requireCapability (c : Caller) (cap : String) (k : Run Response) : Run Response :=
  if hasCapability c cap then k else pure (missingCapability cap)

def requireAdmin (user : UserRow) (k : Run Response) : Run Response :=
  if user.role ≠ "admin" then pure adminRequired else k

def attachDrift (sk : Skill) (outdated : Bool) : Run SkillResp := do
  if outdated then
    match ← getUpstream sk.id with
    | .ok (some u) => pure ⟨sk, outdated, u.drift⟩
    | _ => pure ⟨sk, outdated, none⟩
  else pure ⟨sk, outdated, none⟩

def attachDrifts : List (Skill × Bool) → Run (List SkillResp)
  | [] => pure []
  | (sk, outdated) :: rest => do
    let row ← attachDrift sk outdated
    let rows ← attachDrifts rest
    pure (row :: rows)

/-- Administrators see all skills.  The others see what is assigned to them, without the mark
for outdated ones, which that query does not read. -/
def Database.listForUser (db : Database) (user : UserRow) : List (Skill × Bool) :=
  if user.role = "admin" then
    (db.repo.skills.mergeSort fun a b => a.slug ≤ b.slug).map fun sk => (sk, sk.id ∈ db.outdated)
  else (db.assignedForUser user.id).map fun a => (a.skill, false)

def handleSkills (c : Caller) (r : Request) : Run Response :=
  match c.user with
  | none => pure (writeJSONError 401 "unauthenticated")
  | some user => do
    if r.method ≠ "GET" then pure methodNotAllowed
    else
      match ← query fun db => db.listForUser user with
      | .error _ => pure internalError
      | .ok rows => pure ⟨200, .skills (← attachDrifts rows)⟩

def handleAssigned (c : Caller) (r : Request) : Run Response :=
  match c.user with
  | none => pure (writeJSONError 401 "unauthenticated")
  | some user => do
    if r.method ≠ "GET" then pure methodNotAllowed
    else
      match ← query fun db => db.assignedForUser user.id with
      | .error _ => pure internalError
      | .ok rows => pure ⟨200, .assigned rows⟩

/-- Public skills are readable by everybody, restricted ones by those they are assigned to;
yanked ones by administrators only. -/
def userCanRead (user : UserRow) (skill : Skill) : Run Bool := do
  if user.role = "admin" then pure true
  else if skill.yankedAt ≠ none then pure false
  else if skill.visibility = "public" then pure true
  else
    match ← query fun db => db.listAssignments skill.id with
    | .error _ => pure false
    | .ok rows => pure (rows.any fun a => a.userID = user.id)

def getSkill (skill : Skill) (outdated : Bool) : Run Response := do
  match ← query fun db => db.listVersions skill.id with
  | .error _ => pure internalError
  | .ok versions => pure ⟨200, .skill (← attachDrift skill outdated) versions⟩

def listVersions (skill : Skill) : Run Response := do
  match ← query fun db => db.listVersions skill.id with
  | .error _ => pure internalError
  | .ok versions => pure ⟨200, .versions versions⟩

def getVersion (skill : Skill) (version : String) : Run Response := do
  match ← query fun db => db.version skill.id version with
  | .error _ => pure internalError
  | .ok none => pure (writeJSONError 404 "version not found")
  | .ok (some v) => pure ⟨200, .version v⟩

/-- `OpenArchive`, and the file it opens. -/
def downloadArchive (skill : Skill) (version : String) : Run Response := do
  match ← query fun db => db.version skill.id version with
  | .error _ => pure internalError
  | .ok none => pure (writeJSONError 404 "version not found")
  | .ok (some v) =>
    match ← Prog.get fun db : Database => db.repo.files.lookup v.archivePath with
    | none => pure internalError
    | some archive => pure ⟨200, .archive skill.slug v.version v.archiveSHA256 archive⟩

/-- What is called and not modelled, and whether the checker runs. -/
structure Tools extends Skills.Tools where
  checkerEnabled : Bool := true
  /-- `ComputeSubtreeHashFromArchive`. -/
  subtreeHash : Bytes → Except String String := fun _ => .ok ""

def uploadFailed : UploadError → Response
  | .versionConflict => writeJSONError 409 "version already exists"
  | .slugConflict => writeJSONError 409 "slug already exists"
  | .archiveEmpty => ⟨400, .invalidArchive .archiveEmpty⟩
  | .archiveTooLarge => ⟨400, .invalidArchive .archiveTooLarge⟩
  | .badVersion => ⟨400, .invalidArchive .badVersion⟩
  | .badArchive err => ⟨400, .invalidArchive (.badArchive err)⟩
  | .badSlug => ⟨400, .invalidArchive .badSlug⟩
  | .nameMismatch => ⟨400, .invalidArchive .nameMismatch⟩
  | _ => internalError

/-- What the headers of an upload do to the upstream; says whether one was recorded. -/
def applyUpstreamHeaders (r : Request) (id : ℕ) : Run Bool := do
  if equalFold r.clearUpstream "true" then
    let _ ← clearUpstreamRow id
    pure false
  else if r.upstream ≠ "" then
    match upstreamHeaderPayload (utf8 r.upstream) with
    | none => pure false
    | some p =>
      if p.url ≠ "" ∧ (p.type = "" ∨ p.type = "git") then
        match ← upsertUpstreamRow id p.type p.url p.subpath p.ref with
        | .error _ => pure false
        | .ok () => pure true
      else pure false
  else pure false

def uploadToRepo (tools : Tools) (input : UploadInput) : Run (Except UploadError SkillVersion) :=
  (upload tools.toTools 0 input).focus Database.repo (fun db repo => { db with repo := repo })
    Env.toEnv

def uploadVersion (tools : Tools) (c : Caller) (user : UserRow) (r : Request)
    (slug version : String) : Run Response := do
  if maxArchiveSize < r.body.length then
    pure (writeJSONError 413 "archive exceeds 5 MiB limit")
  else if r.broken then pure (writeJSONError 400 "body unreadable")
  else if r.visibility ≠ "" ∧ ¬ hasCapability c "skills:admin" then
    pure (writeJSONError 403 ("setting ?visibility= requires the skills:admin capability; " ++
      "omit it to publish as restricted"))
  else
    match ← uploadToRepo tools
        { slugOverride := slug, version := version, archive := r.body, uploadedBy := user.id
          visibility := r.visibility } with
    | .error err => pure (uploadFailed err)
    | .ok v =>
      let recorded ← applyUpstreamHeaders r v.skillID
      match ← getUpstream v.skillID with
      | .ok (some _) =>
        let _ ← clearDriftReport v.skillID ((tools.subtreeHash r.body).toOption.getD "")
        pure ⟨201, .uploaded v recorded⟩
      | _ => pure ⟨201, .uploaded v recorded⟩

def patchedName (skill : Skill) (p : PatchSkillBody) : Except Response String :=
  match p.displayName with
  | none => .ok skill.displayName
  | some name =>
    if trimSpace name = "" then .error (writeJSONError 400 "display_name cannot be empty")
    else .ok (trimSpace name)

def patchedVisibility (p : PatchSkillBody) : Except Response String :=
  match p.visibility with
  | none => .ok ""
  | some v =>
    if trimSpace v = "public" ∨ trimSpace v = "restricted" then .ok (trimSpace v)
    else .error (writeJSONError 400 "visibility must be \"public\" or \"restricted\"")

def patchSkill (c : Caller) (r : Request) (skill : Skill) : Run Response := do
  if ¬ equalFold (mediaType r.contentType) "application/json" then
    pure (writeJSONError 415 "expected application/json")
  else
    match r.read 4096 with
    | none => pure (writeJSONError 400 "body unreadable")
    | some body =>
      match patchSkillBody body with
      | none => pure (writeJSONError 400 "invalid JSON")
      | some p =>
        if p.visibility = none ∧ p.displayName = none ∧ p.description = none then
          pure (writeJSONError 400 ("patch body must include at least one of visibility, " ++
            "display_name, description"))
        else if p.visibility ≠ none ∧ ¬ hasCapability c "skills:admin" then
          pure (writeJSONError 403 "changing visibility requires the skills:admin capability")
        else
          match patchedName skill p, patchedVisibility p with
          | .error resp, _ => pure resp
          | .ok _, .error resp => pure resp
          | .ok displayName, .ok visibility =>
            let description := p.description.getD skill.description
            match ← updateSkillMeta skill.id displayName description visibility with
            | .error _ => pure internalError
            | .ok () =>
              match ← getSkillBySlug skill.slug with
              | .ok (some (updated, outdated)) => pure ⟨200, .patched updated outdated⟩
              | _ => pure internalError

/-- Yanks a skill, or deletes it for good, which needs an administrator. -/
def deleteSkill (user : UserRow) (r : Request) (skill : Skill) : Run Response := do
  if r.hard = "true" then
    if user.role ≠ "admin" then pure (writeJSONError 403 "hard delete requires admin access")
    else
      match ← deleteSkillRow skill.id with
      | .error _ => pure internalError
      | .ok () => pure ⟨204, .none⟩
  else
    match ← yankSkill skill.id with
    | .error _ => pure internalError
    | .ok () => pure ⟨200, .yanked⟩

def yankVersion (skill : Skill) (version : String) : Run Response := do
  match ← yankVersionRow skill.id version with
  | .error _ => pure internalError
  | .ok () => pure ⟨200, .yanked⟩

def listAssignments (skill : Skill) : Run Response := do
  match ← query fun db => db.listAssignments skill.id with
  | .error _ => pure internalError
  | .ok rows => pure ⟨200, .assignments rows⟩

def getByUsername (username : String) : Run (Except String (Option UserRow)) :=
  query fun db => find UserRow.username username db.users

def assignSkill (r : Request) (skill : Skill) (adminID : String) : Run Response := do
  match r.read 4096 with
  | none => pure (writeJSONError 400 "body unreadable")
  | some body =>
    match assignBody body with
    | none => pure (writeJSONError 400 "invalid JSON")
    | some (username, version) =>
      if trimSpace username = "" then pure (writeJSONError 400 "username is required")
      else
        match ← getByUsername username with
        | .error _ => pure internalError
        | .ok none => pure (writeJSONError 404 "user not found")
        | .ok (some target) =>
          let pin := nullableString (trimSpace version)
          match ← assignSkillRow ⟨skill.id, target.id, pin, nullableString adminID, 0⟩ with
          | .error _ => pure internalError
          | .ok a => pure ⟨201, .assignment a⟩

def unassignSkill (skill : Skill) (username : String) : Run Response := do
  match ← getByUsername username with
  | .error _ => pure internalError
  | .ok none => pure (writeJSONError 404 "user not found")
  | .ok (some target) =>
    match ← unassignSkillRow skill.id target.id with
    | .error _ => pure internalError
    | .ok () => pure ⟨204, .none⟩

/-- `RunOneSlug`: fetches the upstream of a skill and records what has become of it. -/
def runOneSlug (skill : Skill) : Run (Except String Response) := do
  match ← getUpstream skill.id with
  | .error err => pure (.error err)
  | .ok none => pure (.ok (writeJSONError 409 "skill has no upstream tracking enabled"))
  | .ok (some u) =>
    match ← observe Env.detection with
    | .failed => pure (.ok (writeJSONError 502 "upstream fetch failed"))
    | .unchanged newSHA =>
      match ← updateUpstreamCheck u.skillID newSHA (u.lastSeenHash.getD "") with
      | .error err => pure (.error err)
      | .ok () => pure (.ok ⟨204, .none⟩)
    | .drift report =>
      match ← writeDriftReport u.skillID report with
      | .error err => pure (.error err)
      | .ok () =>
        match ← getUpstream skill.id with
        | .ok (some u) => pure (.ok ⟨200, .drift u.drift⟩)
        | _ => pure (.ok ⟨200, .drift none⟩)

def handleCheckDrift (tools : Tools) (r : Request) (slug : String) : Run Response := do
  if r.method ≠ "POST" then pure methodNotAllowed
  else if ¬ tools.checkerEnabled then
    pure (writeJSONError 503 "skill upstream checker disabled")
  else
    match ← getSkillBySlug slug with
    | .error _ => pure internalError
    | .ok none => pure skillNotFound
    | .ok (some (skill, _)) =>
      match ← runOneSlug skill with
      | .error _ => pure internalError
      | .ok resp => pure resp

def upsertUpstream (r : Request) (skill : Skill) : Run Response := do
  if ¬ equalFold (mediaType r.contentType) "application/json" then
    pure (writeJSONError 415 "expected application/json")
  else
    match r.read 4096 with
    | none => pure (writeJSONError 400 "body unreadable")
    | some body =>
      match upstreamPUTBody body with
      | none => pure (writeJSONError 400 "invalid JSON")
      | some p =>
        if p.type ≠ "" ∧ p.type ≠ "git" then
          pure (writeJSONError 400 "unsupported upstream type (only \"git\" is supported)")
        else if trimSpace p.url = "" then pure (writeJSONError 400 "git_url is required")
        else
          match validateGitURL p.url with
          | .error err => pure ⟨400, .unsupportedGitURL err⟩
          | .ok () =>
            match ← upsertUpstreamRow skill.id p.type p.url p.subpath p.ref with
            | .error _ => pure internalError
            | .ok () =>
              match ← getUpstream skill.id with
              | .ok (some u) => pure ⟨200, .upstream u⟩
              | _ => pure internalError

def handleUpstream (r : Request) (skill : Skill) : Run Response := do
  if r.method = "PUT" then upsertUpstream r skill
  else if r.method = "DELETE" then
    match ← clearUpstreamRow skill.id with
    | .error _ => pure internalError
    | .ok () => pure ⟨200, .cleared⟩
  else pure methodNotAllowed

/-! ### The routes -/

/-- Every branch but the upload has the skill at hand. -/
def withSkill (skill : Option (Skill × Bool)) (k : Skill → Run Response) : Run Response :=
  match skill with
  | none => pure internalError
  | some (sk, _) => k sk

/-- The branches below the slug of a skill, by the parts of the path. -/
def routeSkill (tools : Tools) (c : Caller) (user : UserRow) (r : Request)
    (skill : Option (Skill × Bool)) : List String → Run Response
  | [_] =>
    if r.method = "GET" then
      withSkill skill fun sk => getSkill sk (skill.any fun p => p.2)
    else if r.method = "PATCH" then
      requireCapability c "skills:publish" (withSkill skill (patchSkill c r))
    else if r.method = "DELETE" then
      requireCapability c "skills:yank" (withSkill skill (deleteSkill user r))
    else pure methodNotAllowed
  | [slug, sub] =>
    if sub = "versions" then
      if r.method ≠ "GET" then pure methodNotAllowed else withSkill skill listVersions
    else if sub = "assignments" then
      requireAdmin user <|
        if r.method = "GET" then withSkill skill listAssignments
        else if r.method = "POST" then withSkill skill fun sk => assignSkill r sk user.id
        else pure methodNotAllowed
    else if sub = "check-drift" then requireAdmin user (handleCheckDrift tools r slug)
    else if sub = "upstream" then
      requireCapability c "skills:admin" (withSkill skill (handleUpstream r))
    else pure unknownSubresource
  | [slug, sub, arg] =>
    if sub = "versions" then
      if arg = "" then pure (writeJSONError 400 "missing version")
      else if r.method = "GET" then withSkill skill fun sk => getVersion sk arg
      else if r.method = "POST" then
        requireCapability c "skills:publish" (uploadVersion tools c user r slug arg)
      else if r.method = "DELETE" then
        requireAdmin user (withSkill skill fun sk => yankVersion sk arg)
      else pure methodNotAllowed
    else if sub = "assignments" then
      if arg = "" then pure (writeJSONError 400 "missing username")
      else
        requireAdmin user <|
          if r.method ≠ "DELETE" then pure methodNotAllowed
          else withSkill skill fun sk => unassignSkill sk arg
    else pure unknownSubresource
  | [_, sub, version, leaf] =>
    if sub ≠ "versions" ∨ leaf ≠ "archive" then pure unknownSubresource
    else if r.method ≠ "GET" then pure methodNotAllowed
    else withSkill skill fun sk => downloadArchive sk version
  | _ => pure unknownSubresource

def isVersionUpload (r : Request) : Bool :=
  r.method = "POST" && 3 ≤ (pathParts r.path).length && (pathParts r.path)[1]? = some "versions"

def handleSkillByPath (tools : Tools) (c : Caller) (r : Request) : Run Response :=
  match c.user with
  | none => pure (writeJSONError 401 "unauthenticated")
  | some user => do
    let slug := (pathParts r.path).headD ""
    if slug = "" then pure (writeJSONError 400 "missing skill slug")
    else
      match ← getSkillBySlug slug with
      | .error _ => pure internalError
      | .ok none =>
        if isVersionUpload r then routeSkill tools c user r none (pathParts r.path)
        else pure skillNotFound
      | .ok (some (sk, outdated)) =>
        if r.method = "GET" ∧ user.role ≠ "admin" then
          if ← userCanRead user sk then
            routeSkill tools c user r (some (sk, outdated)) (pathParts r.path)
          else pure skillNotFound
        else routeSkill tools c user r (some (sk, outdated)) (pathParts r.path)

/-- The routes of the repository; the longer pattern wins. -/
def serve (tools : Tools) (c : Caller) (r : Request) : Run Response :=
  if r.path = "/api/skills/assigned" then handleAssigned c r
  else if r.path = "/api/skills" then handleSkills c r
  else if "/api/skills/".toList.isPrefixOf r.path.toList then handleSkillByPath tools c r
  else pure (writeJSONError 404 "404 page not found")

end ArcRelay.Skills.Api
