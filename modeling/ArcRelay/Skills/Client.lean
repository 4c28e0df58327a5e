import ArcRelay.Skills.Api

/-!
# The skills of a client

`arc-sync` installs skills into a directory, each into a directory of its own
(`internal/cli/sync/skills.go`).  A file in it records the version that is installed and
marks the directory as managed; directories without this marker belong to the user and are
left alone.  A sync asks the relay for the skills of its user, installs what is missing,
replaces what has another version than the wanted one, and removes what is managed and not
listed any more.

A program works on the skills directory, one operation of the file system or one request to
the relay a step.  SHA-256 and the unpacking of archives are parameters.
-/

namespace ArcRelay.Skills.Client

open Interleave Json Api Prog

/-! ### The skills directory -/

/-- The file `.arc-sync-version`. -/
structure SkillMarker where
  slug : String
  version : String
  sha256 : String
  relayURL : String
  deriving DecidableEq

inductive Node where
  | file
  | unmarked
  /-- A directory with a marker that cannot be read. -/
  | unreadable (err : String)
  | marked (m : SkillMarker)
  deriving DecidableEq

/-- The skills directory; one that does not exist is empty. -/
abbrev Dir := List (String × Node)

structure Env where
  /-- What the relay answers, if it can be reached. -/
  reply : Except String Response
  fsErr : Option String := none
  tempName : String := ".arc-sync-install-0"
  /-- The order in which a loop comes to the entries of a map: where each goes among the ones
  behind it. -/
  order : List ℕ := []

abbrev Run := Prog Dir Env

def fileOp (f : Dir → Dir) : Run (Except String Unit) :=
  attempt (fun e : Env => e.fsErr) fun d _ => (f d, ())

def Dir.without (d : Dir) (name : String) : Dir := d.filter fun f => f.1 ≠ name

/-- `os.RemoveAll`, with its error ignored. -/
def removeAll (name : String) : Run Unit := do
  let _ ← fileOp fun d => d.without name
  pure ()

/-- `os.Rename`; a directory cannot take the place of another one. -/
def rename (old new : String) : Run (Except String Unit) :=
  act fun d e =>
    match e.fsErr with
    | some err => (d, .error err)
    | none =>
      match d.lookup old with
      | none => (d, .error "no such file or directory")
      | some node =>
        if (d.lookup new).isSome then (d, .error "file exists")
        else ((new, node) :: d.without old, .ok ())

/-- A new directory, under a name that is not taken. -/
def mkdirTemp : Run (Except String String) :=
  act fun d e =>
    match e.fsErr with
    | some err => (d, .error err)
    | none =>
      if (d.lookup e.tempName).isSome then (d, .error "file exists")
      else ((e.tempName, .unmarked) :: d, .ok e.tempName)

def writeMarker (name : String) (marker : SkillMarker) : Run (Except String Unit) :=
  fileOp fun d => (name, .marked marker) :: d.without name

inductive MarkerError where
  | notExist
  | other (err : String)

def readMarker (name : String) : Run (Except MarkerError (Option SkillMarker)) :=
  act fun d e =>
    match e.fsErr with
    | some err => (d, .error (.other err))
    | none =>
      match d.lookup name with
      | none => (d, .error .notExist)
      | some .file => (d, .error (.other "not a directory"))
      | some .unmarked => (d, .ok none)
      | some (.unreadable err) => (d, .error (.other err))
      | some (.marked m) => (d, .ok (some m))

structure InstalledSkill where
  slug : String
  /-- Empty if the skill is not managed. -/
  version : String
  path : String
  managed : Bool

def installedRows : List String → Run (List InstalledSkill)
  | [] => pure []
  | name :: names => do
    let row : InstalledSkill :=
      match ← readMarker name with
      | .ok (some m) => ⟨m.slug, m.version, name, true⟩
      | _ => ⟨name, "", name, false⟩
    let rows ← installedRows names
    pure (row :: rows)

def Dir.names (d : Dir) : List String :=
  ((d.filter fun f => f.2 ≠ .file).map Prod.fst).mergeSort fun a b => a ≤ b

def listInstalled : Run (Except String (List InstalledSkill)) := do
  match ← attempt (fun e : Env => e.fsErr) fun d : Dir => fun _ => (d, d.names) with
  | .error err => pure (.error err)
  | .ok names =>
    let rows ← installedRows names
    pure (.ok rows)

/-! ### Requests -/

inductive ClientError where
  | connecting (err : String)
  | status (code : ℕ)
  | parsing
  deriving DecidableEq

/-- `GET /api/skills/assigned`. -/
def listAssignedSkills : Except String Response → Except ClientError (List AssignedSkill)
  | .error err => .error (.connecting err)
  | .ok resp =>
    if resp.status ≠ 200 then .error (.status resp.status)
    else
      match resp.body with
      | .assigned rows => .ok rows
      | _ => .error .parsing

/-- `GET /api/skills/{slug}/versions/{version}/archive`; the archive and the header
`X-Skill-SHA256`. -/
def downloadSkillVersion : Except String Response → Except ClientError (Bytes × String)
  | .error err => .error (.connecting err)
  | .ok resp =>
    if resp.status ≠ 200 then .error (.status resp.status)
    else
      match resp.body with
      | .archive _ _ sha archive => .ok (archive, sha)
      | _ => .error .parsing

/-! ### One skill -/

/-- The relay, and what is called and not modelled. -/
structure SkillManager where
  baseURL : String
  sha256 : Bytes → String
  extractTarGz : Bytes → Except String Unit

inductive InstallError where
  | unreadable (err : String)
  | notManaged
  | download (err : ClientError)
  | archiveTooLarge
  | sha256Mismatch
  | ensureSkillsDir (err : String)
  | mktemp (err : String)
  | extractArchive (err : String)
  | writeMarker (err : String)
  | renameOld (err : String)
  | renameNew (err : String)
  | rename (err : String)
  deriving DecidableEq

def download (m : SkillManager) : Run (Except InstallError (Bytes × String)) := do
  match downloadSkillVersion (← observe Env.reply) with
  | .error err => pure (.error (.download err))
  | .ok (archive, sha) =>
    if maxArchiveSize < archive.length then pure (.error .archiveTooLarge)
    else if sha ≠ "" ∧ m.sha256 archive ≠ sha then pure (.error .sha256Mismatch)
    else pure (.ok (archive, sha))

def unpack (m : SkillManager) (archive : Bytes) (marker : SkillMarker) :
    Run (Except InstallError String) := do
  match ← fileOp fun d => d with
  | .error err => pure (.error (.ensureSkillsDir err))
  | .ok () =>
    match ← mkdirTemp with
    | .error err => pure (.error (.mktemp err))
    | .ok tmp =>
      match ← observe fun e : Env => (e.fsErr.map Except.error).getD (m.extractTarGz archive)
      with
      | .error err =>
        removeAll tmp
        pure (.error (.extractArchive err))
      | .ok () =>
        match ← writeMarker tmp marker with
        | .error err =>
          removeAll tmp
          pure (.error (.writeMarker err))
        | .ok () => pure (.ok tmp)

/-- Puts the temporary directory in place; an old one is moved aside first, and back again if
that fails. -/
def swap (slug tmp : String) (existing : Bool) : Run (Except InstallError Unit) := do
  if existing then
    let stale := slug ++ ".arc-sync-stale"
    removeAll stale
    match ← rename slug stale with
    | .error err =>
      removeAll tmp
      pure (.error (.renameOld err))
    | .ok () =>
      match ← rename tmp slug with
      | .error err =>
        let _ ← rename stale slug
        removeAll tmp
        pure (.error (.renameNew err))
      | .ok () =>
        removeAll stale
        pure (.ok ())
  else
    match ← rename tmp slug with
    | .error err =>
      removeAll tmp
      pure (.error (.rename err))
    | .ok () => pure (.ok ())

/-- What is installed when nothing stands in the way. -/
def fetch (m : SkillManager) (slug version : String) (existing : Bool) :
    Run (Except InstallError SkillMarker) := do
  match ← download m with
  | .error err => pure (.error err)
  | .ok (archive, sha) =>
    let marker : SkillMarker := ⟨slug, version, sha, m.baseURL⟩
    match ← unpack m archive marker with
    | .error err => pure (.error err)
    | .ok tmp =>
      match ← swap slug tmp existing with
      | .error err => pure (.error err)
      | .ok () => pure (.ok marker)

/-- Directories that are not managed are not overwritten. -/
def install (m : SkillManager) (slug version : String) : Run (Except InstallError SkillMarker) := do
  match ← readMarker slug with
  | .error (.other err) => pure (.error (.unreadable err))
  | .ok none => pure (.error .notManaged)
  | .error .notExist => fetch m slug version false
  | .ok (some _) => fetch m slug version true

inductive RemoveError where
  | readingMarker (err : String)
  | notManaged
  | removing (err : String)
  deriving DecidableEq

def remove (slug : String) : Run (Except RemoveError Unit) := do
  match ← readMarker slug with
  | .error .notExist => pure (.ok ())
  | .error (.other err) => pure (.error (.readingMarker err))
  | .ok none => pure (.error .notManaged)
  | .ok (some _) =>
    match ← fileOp fun d => d.without slug with
    | .error err => pure (.error (.removing err))
    | .ok () => pure (.ok ())

/-! ### All skills -/

structure SkillSyncAction where
  slug : String
  version : String := ""
  /-- The version an update replaces. -/
  previous : String := ""
  deriving DecidableEq

inductive SyncMessage where
  /-- `relay reports no published version; skipping` -/
  | noPublishedVersion
  | install (err : InstallError)
  | remove (err : RemoveError)
  deriving DecidableEq

structure SkillSyncError where
  slug : String
  message : SyncMessage
  deriving DecidableEq

structure SkillSyncReport where
  installed : List SkillSyncAction := []
  updated : List SkillSyncAction := []
  removed : List SkillSyncAction := []
  unchanged : List SkillSyncAction := []
  skippedHand : List SkillSyncAction := []
  errors : List SkillSyncError := []
  deriving DecidableEq

/-- The version a client wants: that of the pin if there is one, else the latest. -/
def wantVersion (a : AssignedSkill) : String :=
  match a.pinnedVersion with
  | some pin => if pin ≠ "" then pin else a.skill.latestVersion.getD ""
  | none => a.skill.latestVersion.getD ""

def SkillSyncReport.fail (report : SkillSyncReport) (slug : String) (message : SyncMessage) :
    SkillSyncReport :=
  { report with errors := report.errors ++ [⟨slug, message⟩] }

def SkillSyncReport.install (report : SkillSyncReport) (slug version : String) :
    Option InstalledSkill → SkillSyncReport
  | some cur => { report with updated := report.updated ++ [⟨slug, version, cur.version⟩] }
  | none => { report with installed := report.installed ++ [⟨slug, version, ""⟩] }

section

variable (m : SkillManager) (dryRun : Bool)

def syncSkill (installed : List InstalledSkill) (report : SkillSyncReport) (a : AssignedSkill) :
    Run SkillSyncReport := do
  let slug := a.skill.slug
  let want := wantVersion a
  let cur := Table.find InstalledSkill.slug slug installed
  if want = "" then pure (report.fail slug .noPublishedVersion)
  else if cur.any fun c => !c.managed then
    pure { report with skippedHand := report.skippedHand ++ [⟨slug, "", ""⟩] }
  else if cur.any fun c => c.version = want then
    pure { report with unchanged := report.unchanged ++ [⟨slug, want, ""⟩] }
  else if dryRun then pure (report.install slug want cur)
  else
    match ← install m slug want with
    | .error err => pure (report.fail slug (.install err))
    | .ok _ => pure (report.install slug want cur)

def syncSkills (installed : List InstalledSkill) :
    List AssignedSkill → SkillSyncReport → Run SkillSyncReport
  | [], report => pure report
  | a :: rows, report => do
    let report ← syncSkill m dryRun installed report a
    syncSkills installed rows report

def dropSkill (report : SkillSyncReport) (cur : InstalledSkill) : Run SkillSyncReport := do
  if !cur.managed then
    pure { report with skippedHand := report.skippedHand ++ [⟨cur.slug, "", ""⟩] }
  else if dryRun then
    pure { report with removed := report.removed ++ [⟨cur.slug, cur.version, ""⟩] }
  else
    match ← remove cur.slug with
    | .error err => pure (report.fail cur.slug (.remove err))
    | .ok () => pure { report with removed := report.removed ++ [⟨cur.slug, cur.version, ""⟩] }

def dropSkills : List InstalledSkill → SkillSyncReport → Run SkillSyncReport
  | [], report => pure report
  | cur :: rows, report => do
    let report ← dropSkill dryRun report cur
    dropSkills rows report

inductive SyncError where
  | listAssigned (err : ClientError)
  | listInstalled (err : String)
  deriving DecidableEq

def installedBySlug (rows : List InstalledSkill) : List InstalledSkill :=
  rows.foldl (fun t row => Table.upsert InstalledSkill.slug (fun _ => row) row t) []

def inOrder : List ℕ → List InstalledSkill → List InstalledSkill
  | _, [] => []
  | order, cur :: rows =>
    (inOrder order.tail rows).insertIdx (order.headD 0 % (rows.length + 1)) cur

def reconcile (assigned : List AssignedSkill) : Run (Except SyncError SkillSyncReport) := do
  match ← listInstalled with
  | .error err => pure (.error (.listInstalled err))
  | .ok rows =>
    let installed := installedBySlug rows
    let report ← syncSkills m dryRun installed assigned {}
    let others := installed.filter fun cur => !assigned.any fun a => a.skill.slug = cur.slug
    let order ← observe Env.order
    let report ← dropSkills dryRun (inOrder order others) report
    pure (.ok report)

def sync : Run (Except SyncError SkillSyncReport) := do
  match listAssignedSkills (← observe Env.reply) with
  | .error err => pure (.error (.listAssigned err))
  | .ok assigned => reconcile m dryRun assigned

end

end ArcRelay.Skills.Client
