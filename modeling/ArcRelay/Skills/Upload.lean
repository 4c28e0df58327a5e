import ArcRelay.Lib.Table
import ArcRelay.Memory.Parser

/-!
# The skill repository

Skills are published as archives (`internal/skills/service.go`).  The archive of a version
lies on disk under the slug and the version, a row of `skill_versions` records its size
and its SHA-256, and the row of the skill carries the name and description that listings
show.

An upload goes through these one after the other: it checks the archive, creates the skill
or refreshes its name and description, puts the file in place, and inserts the row last.
Each statement and the final rename of the file is one step, so uploads that run at the
same time meet between any two of them.  SHA-256 and the reading of the archive are
parameters.
-/

namespace ArcRelay.Skills

open Interleave Json Prog

/-! ### The repository -/

/-- The file `<slug>/<version>.tar.gz`. -/
abbrev ArchivePath := String × String

structure Skill where
  id : ℕ
  slug : String
  displayName : String
  description : String
  visibility : String
  latestVersion : Option String := none
  yankedAt : Option ℤ := none
  createdBy : Option String := none
  createdAt : ℤ
  updatedAt : ℤ
  deriving DecidableEq

structure SkillVersion where
  skillID : ℕ
  version : String
  archivePath : ArchivePath
  archiveSize : ℕ
  archiveSHA256 : String
  manifest : String
  yankedAt : Option ℤ := none
  uploadedBy : Option String := none
  uploadedAt : ℤ
  deriving DecidableEq

/-- What happened, for the specification only; the number is that of the upload. -/
inductive Entry where
  /-- The name and description of a skill that was there were changed. -/
  | retitled (i : ℕ)
  /-- The file was put in place, over that of a version row or not. -/
  | wrote (i : ℕ) (path : ArchivePath) (archive : Bytes) (replaced : Bool)
  | published (i : ℕ) (path : ArchivePath) (archive : Bytes)
  | conflicted (i : ℕ)
  /-- The file could not be written, the manifest not be encoded, or the row not be
  inserted for another reason. -/
  | failed (i : ℕ)
  deriving DecidableEq

structure State where
  skills : List Skill := []
  versions : List SkillVersion := []
  files : List (ArchivePath × Bytes) := []
  nextID : ℕ := 0
  log : List Entry := []

structure Env where
  now : ℤ := 0
  storeErr : Option String := none
  fsErr : Option String := none

abbrev Run := Prog State Env

/-! ### The checks -/

/-- What is read from `SKILL.md`.  The encoding of its other fields as JSON can fail. -/
structure Manifest where
  name : String
  description : String
  json : Except String String

/-- What is called and not modelled. -/
structure Tools where
  sha256 : Bytes → String
  validateArchive : Bytes → Except String Manifest

structure UploadInput where
  slugOverride : String := ""
  version : String
  archive : Bytes
  uploadedBy : String := ""
  displayName : String := ""
  description : String := ""
  visibility : String := ""

inductive UploadError where
  | archiveEmpty
  | archiveTooLarge
  | badVersion
  | badArchive (err : String)
  | badSlug
  | nameMismatch
  | lookingUp (err : String)
  | badVisibility
  | slugConflict
  | creatingSkill (err : String)
  | updatingMeta (err : String)
  | writingArchive (err : String)
  | encodingManifest (err : String)
  | versionConflict
  | recordingVersion (err : String)
  deriving DecidableEq

def maxArchiveSize : ℕ := 5 * 1024 * 1024

def digitsFirst (l : List Char) : Option (List Char) :=
  if (l.takeWhile Char.isDigit).isEmpty then none else some (l.dropWhile Char.isDigit)

/-- `MAJOR.MINOR.PATCH`, and a suffix of letters, digits, dots and hyphens if any. -/
def matchesVersion (version : String) : Bool :=
  match digitsFirst version.toList with
  | some ('.' :: l) =>
    match digitsFirst l with
    | some ('.' :: l) =>
      match digitsFirst l with
      | some [] => true
      | some ('-' :: l) => !l.isEmpty && l.all fun c => c.isAlphanum || c == '.' || c == '-'
      | _ => false
    | _ => false
  | _ => false

/-- Lower-case letters, digits and hyphens, two at least, no hyphen at either end. -/
def matchesSlug (slug : String) : Bool :=
  let plain := fun c : Char => c.isLower || c.isDigit
  match slug.toList with
  | [] | [_] => false
  | a :: l => plain a && l.getLast?.any plain && l.all fun c => plain c || c == '-'

def trimSpace (s : String) : String :=
  let trim := List.dropWhile Memory.isUnicodeSpace
  String.ofList (trim (trim s.toList).reverse).reverse

def firstNonEmptyLine (s : String) : String :=
  (((s.toList.splitOn '\n').map fun l => trimSpace (String.ofList l)).find? (· ≠ "")).getD ""

/-- The checks before anything is read or written; returns the manifest and the slug. -/
def prepare (tools : Tools) (input : UploadInput) : Except UploadError (Manifest × String) := do
  if input.archive.length = 0 then throw .archiveEmpty
  if maxArchiveSize < input.archive.length then throw .archiveTooLarge
  if ¬ matchesVersion input.version then throw .badVersion
  match tools.validateArchive input.archive with
  | .error err => throw (.badArchive err)
  | .ok manifest =>
    let slug := if input.slugOverride = "" then manifest.name else input.slugOverride
    if ¬ matchesSlug slug then throw .badSlug
    if manifest.name ≠ slug then throw .nameMismatch
    pure (manifest, slug)

def displayNameOf (input : UploadInput) (manifest : Manifest) (slug : String) : String :=
  let name := trimSpace input.displayName
  if name ≠ "" then name
  else
    let line := firstNonEmptyLine manifest.description
    if line ≠ "" then line else slug

def descriptionOf (input : UploadInput) (manifest : Manifest) : String :=
  let text := trimSpace input.description
  if text ≠ "" then text else trimSpace manifest.description

def nullableString (s : String) : Option String := if s = "" then none else some s

/-! ### The program -/

section

variable (tools : Tools) (i : ℕ) (input : UploadInput) (manifest : Manifest)

def createSkill (slug : String) : Run (Except UploadError Skill) :=
  let visibility := if input.visibility = "" then "restricted" else input.visibility
  if visibility ≠ "public" ∧ visibility ≠ "restricted" then pure (.error .badVisibility)
  else
    act fun s e =>
      match e.storeErr with
      | some err => (s, .error (.creatingSkill err))
      | none =>
        if s.skills.any fun sk => sk.slug = slug then (s, .error .slugConflict)
        else
          let skill : Skill :=
            { id := s.nextID, slug := slug, displayName := displayNameOf input manifest slug
              description := descriptionOf input manifest, visibility := visibility
              createdBy := nullableString input.uploadedBy, createdAt := e.now, updatedAt := e.now }
          ({ s with skills := s.skills ++ [skill], nextID := s.nextID + 1 }, .ok skill)

def updateSkillMeta (skill : Skill) (displayName description : String) : Run (Except String Unit) :=
  attempt (·.storeErr) fun s e =>
    ({ s with
        skills := Table.modify Skill.id skill.id
          (fun sk => { sk with
            displayName := displayName, description := description, updatedAt := e.now })
          s.skills
        log := .retitled i :: s.log }, ())

def ensureSkill (slug : String) : Option Skill → Run (Except UploadError Skill)
  | none => createSkill input manifest slug
  | some skill => do
    let displayName := displayNameOf input manifest slug
    let description := descriptionOf input manifest
    if displayName ≠ skill.displayName ∨ description ≠ skill.description then
      match ← updateSkillMeta i skill displayName description with
      | .error err => pure (.error (.updatingMeta err))
      | .ok () => pure (.ok { skill with displayName := displayName, description := description })
    else pure (.ok skill)

/-- Puts the file in place; the rename is the one step that others can see. -/
def writeArchive (path : ArchivePath) (archive : Bytes) : Run (Except String Unit) :=
  act fun s e =>
    match e.fsErr with
    | some err => ({ s with log := .failed i :: s.log }, .error err)
    | none =>
      let replaced := s.versions.any fun v => v.archivePath = path
      ({ s with
          files := (path, archive) :: s.files.filter (fun f => f.1 ≠ path)
          log := .wrote i path archive replaced :: s.log }, .ok ())

/-- What the store refuses before it asks the database. -/
def checkVersion (v : SkillVersion) : Option String :=
  if v.version = "" then some "version is required"
  else if v.archiveSize = 0 then some "archive_size must be > 0"
  else if v.archiveSHA256 = "" then some "archive_sha256 is required"
  else none

/-- Inserts the row of a version and moves the pointer to the latest one. -/
def createVersion (path : ArchivePath) (archive : Bytes) (v : SkillVersion) :
    Run (Except UploadError SkillVersion) :=
  act fun s e =>
    match checkVersion v <|> e.storeErr with
    | some err => ({ s with log := .failed i :: s.log }, .error (.recordingVersion err))
    | none =>
      if s.versions.any fun w => w.skillID = v.skillID ∧ w.version = v.version then
        ({ s with log := .conflicted i :: s.log }, .error .versionConflict)
      else
        let v := { v with
          manifest := if v.manifest = "" then "\x7b\x7d" else v.manifest, uploadedAt := e.now }
        ({ s with
            versions := s.versions ++ [v]
            skills := Table.modify Skill.id v.skillID
              (fun sk => { sk with latestVersion := some v.version, updatedAt := e.now }) s.skills
            log := .published i path archive :: s.log }, .ok v)

/-- The file first, then the row. -/
def publish (skill : Skill) : Run (Except UploadError SkillVersion) := do
  let path : ArchivePath := (skill.slug, input.version)
  match ← writeArchive i path input.archive with
  | .error err => pure (.error (.writingArchive err))
  | .ok () =>
    match manifest.json with
    | .error err =>
      Prog.set fun s => { s with log := .failed i :: s.log }
      pure (.error (.encodingManifest err))
    | .ok json =>
      createVersion i path input.archive
        { skillID := skill.id, version := input.version, archivePath := path
          archiveSize := input.archive.length, archiveSHA256 := tools.sha256 input.archive
          manifest := json, uploadedBy := nullableString input.uploadedBy, uploadedAt := 0 }

/-- `Service.Upload`, as upload number `i`. -/
def upload : Run (Except UploadError SkillVersion) :=
  match prepare tools input with
  | .error err => pure (.error err)
  | .ok (manifest, slug) => do
    match ← attempt (·.storeErr) fun s _ => (s, s.skills.find? fun sk => sk.slug = slug) with
    | .error err => pure (.error (.lookingUp err))
    | .ok found =>
      match ← ensureSkill i input manifest slug found with
      | .error err => pure (.error err)
      | .ok skill => publish tools i input manifest skill

end

def uploads (tools : Tools) (inputs : List UploadInput) :
    Pool State Env (Except UploadError SkillVersion) :=
  ⟨{}, inputs.mapIdx fun i input => upload tools i input⟩

inductive WorldEvent where
  | yankVersion (skillID : ℕ) (version : String) (yankedAt : Option ℤ)
  | yankSkill (id : ℕ) (yankedAt : Option ℤ) (now : ℤ)

def world : WorldEvent → State → State
  | .yankVersion skillID version yankedAt, s =>
    { s with
      versions := Table.modify (fun v => (v.skillID, v.version)) (skillID, version)
        (fun v => { v with yankedAt := yankedAt }) s.versions }
  | .yankSkill id yankedAt now, s =>
    { s with
      skills := Table.modify Skill.id id
        (fun sk => { sk with yankedAt := yankedAt, updatedAt := now }) s.skills }

end ArcRelay.Skills
