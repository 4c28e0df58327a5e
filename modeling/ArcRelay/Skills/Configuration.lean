import ArcRelay.Skills.Api
import ArcRelay.Skills.Immutable

/-!
# Who configures upstreams and audiences

Publishing a version, choosing who receives a skill and telling the relay where to fetch it
from are different powers, and the last two should need `skills:admin`.  The route that sets
an upstream asks for it, and so do the two places that set a visibility.  The headers of an
upload do not: with `X-Upstream` or `X-Clear-Upstream`, a key that may only publish changes
or removes the upstream of the skill it publishes.

`kept_iff` says that this is the only way, for every route and every request: a caller
without `skills:admin` leaves the upstreams and the visibilities of every database alone
exactly when the request is not an upload that is accepted and carries such a header.

* `Kept`, `Reconfigures`: nothing is configured; the upload that does.
-/

namespace ArcRelay.Skills.Api

open Interleave Prog Json Access List Table

/-! ### What is to be kept -/

def SkillUpstream.source (u : SkillUpstream) : ℕ × String × String × String :=
  (u.skillID, u.gitURL, u.gitSubpath, u.gitRef)

def audience (sk : Skill) : ℕ × String := (sk.id, sk.visibility)

/-- Skills keep their visibility, and those that are added have the default. -/
def KeptAudience (s s' : State) : Prop :=
  ∃ new, s'.skills.map audience = s.skills.map audience ++ new ∧ ∀ p ∈ new, p.2 = "restricted"

/-- No upstream is created, changed or deleted, and no visibility changes. -/
structure Kept (db db' : Database) : Prop where
  upstreams : db'.upstreams.map SkillUpstream.source = db.upstreams.map SkillUpstream.source
  audience : KeptAudience db.repo db'.repo

theorem KeptAudience.of_eq {s s' : State} (h : s'.skills.map audience = s.skills.map audience) :
    KeptAudience s s' :=
  ⟨[], by rw [h, append_nil], nofun⟩

theorem KeptAudience.trans {a b c : State} (hab : KeptAudience a b) (hbc : KeptAudience b c) :
    KeptAudience a c := by
  obtain ⟨new, hb, hnew⟩ := hab
  obtain ⟨new', hc, hnew'⟩ := hbc
  refine ⟨new ++ new', by rw [hc, hb, append_assoc], fun p hp => ?_⟩
  rcases mem_append.mp hp with h | h
  · exact hnew p h
  · exact hnew' p h

theorem Kept.refl (db : Database) : Kept db db := ⟨rfl, .of_eq rfl⟩

theorem Kept.trans {a b c : Database} (hab : Kept a b) (hbc : Kept b c) : Kept a c :=
  ⟨hbc.upstreams.trans hab.upstreams, hab.audience.trans hbc.audience⟩

/-! ### Uploads -/

section

variable {tools : Skills.Tools} {i : ℕ} {input : UploadInput} {manifest : Manifest} {slug : String}

theorem createSkill_within (hvis : input.visibility = "") :
    (createSkill input manifest slug).Within KeptAudience := by
  unfold createSkill
  rw [hvis]
  refine within_act.mpr fun s e => ?_
  split
  · exact .of_eq rfl
  split
  · exact .of_eq rfl
  refine ⟨[(s.nextID, "restricted")], by simp [audience], fun p hp => ?_⟩
  rw [mem_singleton.mp hp]

theorem retitle_within (skill : Skill) (displayName description : String) :
    (Skills.updateSkillMeta i skill displayName description).Within KeptAudience := by
  refine within_attempt (fun _ => .of_eq rfl) fun s e => .of_eq ?_
  exact map_modify_eq (by exact fun _ _ => rfl)

theorem ensureSkill_within (hvis : input.visibility = "") (found : Option Skill) :
    (ensureSkill i input manifest slug found).Within KeptAudience := by
  cases found with
  | none => exact createSkill_within hvis
  | some skill => ?_
  unfold ensureSkill
  generalize displayNameOf input manifest slug = displayName, descriptionOf input manifest =
    description
  dsimp only
  split
  · refine (retitle_within skill displayName description).bind fun r => ?_
    cases r <;> exact within_pure _
  · exact within_pure _

theorem createVersion_within (path : ArchivePath) (archive : Bytes) (v : SkillVersion) :
    (createVersion i path archive v).Within KeptAudience := by
  refine within_act.mpr fun s e => ?_
  split
  · exact .of_eq rfl
  split
  · exact .of_eq rfl
  · exact .of_eq (map_modify_eq (by exact fun _ _ => rfl))

theorem publish_within (skill : Skill) :
    (publish tools i input manifest skill).Within KeptAudience := by
  refine Prog.Within.bind (within_act.mpr fun s e => ?_) fun r => ?_
  · split <;> exact .of_eq rfl
  cases r with
  | error err => exact within_pure _
  | ok u => ?_
  dsimp only
  split
  · exact Prog.Within.bind (within_act.mpr fun s e => .of_eq rfl) fun _ => within_pure _
  · exact createVersion_within _ _ _

theorem upload_within (hvis : input.visibility = "") :
    (upload tools i input).Within KeptAudience := by
  unfold upload
  split
  · exact within_pure _
  next manifest slug _ =>
  refine Prog.Within.bind (within_attempt (fun _ => .of_eq rfl) fun _ _ => .of_eq rfl) fun r => ?_
  cases r with
  | error err => exact within_pure _
  | ok found =>
    exact Prog.Within.bindOk (ensureSkill_within hvis found) (fun _ => within_pure _)
      fun skill => publish_within skill

end

/-! ### The handlers -/

theorem query_within {α : Type} (f : Database → α) : (query f).Within Kept :=
  within_attempt Kept.refl fun db _ => Kept.refl db

theorem exec_within {f : Database → Env → Database} (h : ∀ db e, Kept db (f db e)) :
    (exec f).Within Kept :=
  within_attempt Kept.refl h

theorem attachDrift_within (sk : Skill) (outdated : Bool) :
    (attachDrift sk outdated).Within Kept := by
  unfold attachDrift
  split
  · refine (query_within _).bind fun r => ?_
    split <;> exact within_pure _
  · exact within_pure _

theorem attachDrifts_within (rows : List (Skill × Bool)) : (attachDrifts rows).Within Kept := by
  induction rows with
  | nil => exact within_pure _
  | cons row rest ih => exact (attachDrift_within _ _).bind fun _ => ih.bind fun _ => within_pure _

theorem handleSkills_within (c : Caller) (r : Request) : (handleSkills c r).Within Kept := by
  unfold handleSkills
  split
  · exact within_pure _
  split
  · exact within_pure _
  refine (query_within _).bind fun rows => ?_
  split
  · exact within_pure _
  · exact (attachDrifts_within _).bind fun _ => within_pure _

theorem handleAssigned_within (c : Caller) (r : Request) : (handleAssigned c r).Within Kept := by
  unfold handleAssigned
  split
  · exact within_pure _
  split
  · exact within_pure _
  refine (query_within _).bind fun rows => ?_
  split <;> exact within_pure _

theorem userCanRead_within (user : UserRow) (skill : Skill) :
    (userCanRead user skill).Within Kept := by
  unfold userCanRead
  split
  · exact within_pure _
  split
  · exact within_pure _
  split
  · exact within_pure _
  refine (query_within _).bind fun rows => ?_
  split <;> exact within_pure _

theorem getSkill_within (skill : Skill) (outdated : Bool) :
    (getSkill skill outdated).Within Kept := by
  refine (query_within _).bind fun versions => ?_
  split
  · exact within_pure _
  · exact (attachDrift_within _ _).bind fun _ => within_pure _

theorem listVersions_within (skill : Skill) : (listVersions skill).Within Kept := by
  refine (query_within _).bind fun versions => ?_
  split <;> exact within_pure _

theorem getVersion_within (skill : Skill) (version : String) :
    (getVersion skill version).Within Kept := by
  refine (query_within _).bind fun v => ?_
  split <;> exact within_pure _

theorem downloadArchive_within (skill : Skill) (version : String) :
    (downloadArchive skill version).Within Kept := by
  refine (query_within _).bind fun v => ?_
  split
  · exact within_pure _
  · exact within_pure _
  refine Prog.Within.bind (within_act.mpr fun db _ => Kept.refl db) fun archive => ?_
  split <;> exact within_pure _

theorem updateSkillMeta_within (id : ℕ) (displayName description : String) :
    (updateSkillMeta id displayName description "").Within Kept := by
  rw [updateSkillMeta, if_neg (not_not.mpr mem_cons_self)]
  exact exec_within fun db _ => ⟨rfl, .of_eq (map_modify_eq (by exact fun _ _ => rfl))⟩

theorem clearDriftReport_within (id : ℕ) (hash : String) : (clearDriftReport id hash).Within Kept :=
  exec_within fun db _ => ⟨map_modify_eq (by exact fun _ _ => rfl), .of_eq rfl⟩

theorem yankSkill_within (id : ℕ) : (yankSkill id).Within Kept :=
  exec_within fun db _ => ⟨rfl, .of_eq (map_modify_eq (by exact fun _ _ => rfl))⟩

variable {c : Caller} {user : UserRow} {i : ℕ} {tools : Tools} {r : Request} {path : ArchivePath}
  {archive : Bytes} {v : SkillVersion}

theorem deleteSkill_within (hrole : user.role ≠ "admin") (r : Request) (skill : Skill) :
    (deleteSkill user r skill).Within Kept := by
  unfold deleteSkill
  split
  · exact within_pure _
  refine (yankSkill_within _).bind fun res => ?_
  split <;> exact within_pure _

theorem patchSkill_within (hadmin : hasCapability c "skills:admin" = false) (r : Request)
    (skill : Skill) : (patchSkill c r skill).Within Kept := by
  unfold patchSkill
  split
  · exact within_pure _
  split
  · exact within_pure _
  split
  · exact within_pure _
  next p _ =>
  split
  · exact within_pure _
  split
  · exact within_pure _
  next hvis =>
  -- without the capability the body cannot have a visibility
  have hnone : p.visibility = none := by
    rw [hadmin] at hvis
    simpa using hvis
  have hkeep : patchedVisibility p = .ok "" := by
    rw [patchedVisibility, hnone]
  rw [hkeep]
  split
  · exact within_pure _
  · exact within_pure _
  next heq =>
  cases heq
  refine (updateSkillMeta_within _ _ _).bind fun res => ?_
  split
  · exact within_pure _
  refine (query_within _).bind fun updated => ?_
  split <;> exact within_pure _

/-! ### Uploads with headers -/

/-- The archive passes the checks and can be recorded. -/
def Accepted (tools : Tools) (input : UploadInput) : Prop :=
  ∃ manifest slug json, prepare tools.toTools input = .ok (manifest, slug) ∧
    manifest.json = .ok json ∧ tools.sha256 input.archive ≠ ""

def SetsUpstream (r : Request) : Prop :=
  equalFold r.clearUpstream "true" = true ∨
    r.upstream ≠ "" ∧ ∃ p, upstreamHeaderPayload (utf8 r.upstream) = some p ∧ p.url ≠ "" ∧
      (p.type = "" ∨ p.type = "git") ∧ validateGitURL p.url = .ok ()

theorem createVersion_returns (hsha : v.archiveSHA256 = "") :
    (createVersion i path archive v).Returns fun r => ∀ w, r ≠ .ok w := by
  have hcheck : ∃ err, checkVersion v = some err := by
    unfold checkVersion
    split
    · exact ⟨_, rfl⟩
    split
    · exact ⟨_, rfl⟩
    exact ⟨_, rfl⟩
  obtain ⟨err, herr⟩ := hcheck
  refine returns_act.mpr fun s e w => ?_
  rw [herr]
  exact nofun

theorem upload_returns {input : UploadInput} (h : ¬ Accepted tools input) :
    (upload tools.toTools i input).Returns fun r => ∀ v, r ≠ .ok v := by
  unfold upload
  split
  · exact returns_pure fun v => nofun
  next manifest slug hprep =>
  refine Prog.Returns.bind _ fun r => ?_
  cases r with
  | error err => exact returns_pure fun v => nofun
  | ok found => ?_
  refine Prog.Returns.bind _ fun r => ?_
  cases r with
  | error err => exact returns_pure fun v => nofun
  | ok skill => ?_
  refine Prog.Returns.bind _ fun r => ?_
  cases r with
  | error err => exact returns_pure fun v => nofun
  | ok u => ?_
  dsimp only
  split
  · exact Prog.Returns.bind _ fun _ => returns_pure fun v => nofun
  next json hjson =>
  -- what is left is an archive without a hash, which the store refuses
  have hsha : tools.sha256 input.archive = "" :=
    not_not.mp fun hsha => h ⟨manifest, slug, json, hprep, hjson, hsha⟩
  exact createVersion_returns hsha

theorem upsertUpstreamRow_within {url : String} (h : validateGitURL url ≠ .ok ()) (id : ℕ)
    (type subpath ref : String) : (upsertUpstreamRow id type url subpath ref).Within Kept := by
  unfold upsertUpstreamRow
  cases hurl : validateGitURL url with
  | error err => exact within_pure _
  | ok u => exact absurd hurl h

theorem applyUpstreamHeaders_within (h : ¬ SetsUpstream r) (id : ℕ) :
    (applyUpstreamHeaders r id).Within Kept := by
  unfold applyUpstreamHeaders
  split
  · next hclear => exact absurd (Or.inl hclear) h
  split
  · next hne =>
    split
    · exact within_pure _
    next p hp =>
    split
    · next hvalid =>
      have hurl : validateGitURL p.url ≠ .ok () :=
        fun hurl => h (Or.inr ⟨hne, p, hp, hvalid.1, hvalid.2, hurl⟩)
      refine (upsertUpstreamRow_within hurl id p.type p.subpath p.ref).bind fun res => ?_
      split <;> exact within_pure _
    · exact within_pure _
  · exact within_pure _

theorem refreshed_within (id : ℕ) (hash : String) (resp : Response) :
    (do
      match ← getUpstream id with
      | .ok (some _) =>
        let _ ← clearDriftReport id hash
        pure resp
      | _ => pure resp : Run Response).Within Kept := by
  refine (query_within _).bind fun u => ?_
  split
  · exact (clearDriftReport_within _ _).bind fun _ => within_pure _
  · exact within_pure _

theorem uploadVersion_within {slug version : String}
    (hadmin : hasCapability c "skills:admin" = false)
    (h : r.visibility = "" → ¬ r.broken →
      Accepted tools ⟨slug, version, r.body, user.id, "", "", ""⟩ → ¬ SetsUpstream r) :
    (uploadVersion tools c user r slug version).Within Kept := by
  unfold uploadVersion
  split
  · exact within_pure _
  split
  · exact within_pure _
  next hbroken =>
  split
  · exact within_pure _
  next hvis =>
  -- a visibility needs `skills:admin`, so none is asked for
  have hempty : r.visibility = "" := by
    rw [hadmin] at hvis
    simpa using hvis
  rw [hempty]
  have hrepo : (uploadToRepo tools ⟨slug, version, r.body, user.id, "", "", ""⟩).Within Kept :=
    (upload_within rfl).focus fun db s hs => ⟨rfl, hs⟩
  by_cases hacc : Accepted tools ⟨slug, version, r.body, user.id, "", "", ""⟩
  · refine hrepo.bindOk (fun _ => within_pure _) fun v => ?_
    refine (applyUpstreamHeaders_within (h hempty hbroken hacc) _).bind fun recorded => ?_
    exact refreshed_within v.skillID _ _
  refine hrepo.bind_returns (upload_returns hacc).focus fun res hres => ?_
  cases res with
  | error err => exact within_pure _
  | ok v => exact absurd rfl (hres v)

/-! ### The routes -/

/-- The request is an upload that is accepted and asks for a change of the upstream. -/
structure Reconfigures (tools : Tools) (c : Caller) (r : Request) (slug version : String) :
    Prop where
  path : "/api/skills/".toList.isPrefixOf r.path.toList = true
  parts : pathParts r.path = [slug, "versions", version]
  named : slug ≠ ""
  method : r.method = "POST"
  publisher : hasCapability c "skills:publish" = true
  visibility : r.visibility = ""
  whole : ¬ r.broken
  accepted : ∃ user, c.user = some user ∧
    Accepted tools ⟨slug, version, r.body, user.id, "", "", ""⟩
  headers : SetsUpstream r

theorem requireAdmin_within (hrole : user.role ≠ "admin") (k : Run Response) :
    (requireAdmin user k).Within Kept := by
  rw [requireAdmin, if_pos hrole]
  exact within_pure _

theorem requireCapability_within {cap : String} {k : Run Response}
    (h : hasCapability c cap = true → k.Within Kept) : (requireCapability c cap k).Within Kept := by
  unfold requireCapability
  split
  · next hcap => exact h hcap
  · exact within_pure _

theorem withSkill_within {skill : Option (Skill × Bool)} {k : Skill → Run Response}
    (h : ∀ sk, (k sk).Within Kept) : (withSkill skill k).Within Kept := by
  unfold withSkill
  split
  · exact within_pure _
  · exact h _

theorem routeSkill_within (hadmin : hasCapability c "skills:admin" = false)
    (hrole : user.role ≠ "admin") {parts : List String}
    (hup : ∀ slug version, parts = [slug, "versions", version] → r.method = "POST" →
      hasCapability c "skills:publish" = true →
      (uploadVersion tools c user r slug version).Within Kept)
    (skill : Option (Skill × Bool)) : (routeSkill tools c user r skill parts).Within Kept := by
  unfold routeSkill
  split
  · split
    · exact withSkill_within fun sk => getSkill_within sk _
    split
    · exact requireCapability_within fun _ => withSkill_within (patchSkill_within hadmin r)
    split
    · exact requireCapability_within fun _ => withSkill_within (deleteSkill_within hrole r)
    · exact within_pure _
  · split
    · split
      · exact within_pure _
      · exact withSkill_within listVersions_within
    split
    · exact requireAdmin_within hrole _
    split
    · exact requireAdmin_within hrole _
    split
    · refine requireCapability_within fun hcap => ?_
      rw [hadmin] at hcap
      cases hcap
    · exact within_pure _
  · next slug sub arg =>
    split
    · next hsub =>
      split
      · exact within_pure _
      split
      · exact withSkill_within fun sk => getVersion_within sk arg
      split
      · next hmethod =>
        exact requireCapability_within fun hcap => hup slug arg (by rw [hsub]) hmethod hcap
      split
      · exact requireAdmin_within hrole _
      · exact within_pure _
    split
    · split
      · exact within_pure _
      · exact requireAdmin_within hrole _
    · exact within_pure _
  · split
    · exact within_pure _
    split
    · exact within_pure _
    · exact withSkill_within fun sk => downloadArchive_within sk _
  · exact within_pure _

/-- **Without `skills:admin`**, every step of a request that is not an accepted upload with a
header for the upstream keeps upstreams and visibilities. -/
theorem serve_within (hrole : ∀ u, c.user = some u → u.role ≠ "admin")
    (hadmin : hasCapability c "skills:admin" = false)
    (h : ¬ ∃ slug version, Reconfigures tools c r slug version) :
    (serve tools c r).Within Kept := by
  unfold serve
  split
  · exact handleAssigned_within c r
  split
  · exact handleSkills_within c r
  split
  · next hpath =>
    unfold handleSkillByPath
    split
    · exact within_pure _
    next user huser =>
    dsimp only
    split
    · exact within_pure _
    next hslug =>
    have hroute : ∀ skill, (routeSkill tools c user r skill (pathParts r.path)).Within Kept := by
      refine routeSkill_within hadmin (hrole user huser) fun slug version hparts hmethod hcap => ?_
      refine uploadVersion_within hadmin fun hvis hwhole hacc hset => h ⟨slug, version, ?_⟩
      rw [hparts] at hslug
      exact ⟨hpath, hparts, hslug, hmethod, hcap, hvis, hwhole, ⟨user, huser, hacc⟩, hset⟩
    refine (query_within _).bind fun res => ?_
    split
    · exact within_pure _
    · split
      · exact hroute none
      · exact within_pure _
    split
    · refine (userCanRead_within _ _).bind fun can => ?_
      split
      · exact hroute _
      · exact within_pure _
    · exact hroute _
  · exact within_pure _

/-! ### What an upload with a header does -/

variable {input : UploadInput} {manifest : Manifest} {slug version : String} {s : State}

theorem prepare_ok (h : prepare tools.toTools input = .ok (manifest, slug)) :
    input.archive.length ≠ 0 ∧ input.archive.length ≤ maxArchiveSize ∧ input.version ≠ "" ∧
      slug = if input.slugOverride = "" then manifest.name else input.slugOverride := by
  unfold prepare at h
  by_cases hempty : input.archive.length = 0
  · rw [if_pos hempty] at h
    cases h
  by_cases hlarge : maxArchiveSize < input.archive.length
  · rw [if_neg hempty, if_pos hlarge] at h
    cases h
  by_cases hversion : matchesVersion input.version = true
  · have hname : input.version ≠ "" := by
      intro h
      rw [h] at hversion
      exact absurd hversion (by decide)
    refine ⟨hempty, Nat.le_of_not_lt hlarge, hname, ?_⟩
    rw [if_neg hempty, if_neg hlarge, if_neg (not_not.mpr hversion)] at h
    cases hval : tools.validateArchive input.archive with
    | error err =>
      rw [hval] at h
      cases h
    | ok m => ?_
    rw [hval] at h
    dsimp only at h
    generalize hslug : (if input.slugOverride = "" then m.name else input.slugOverride) = slug' at h
    -- the slug and the name have to pass, too
    split at h
    · cases h
    split at h
    · cases h
    cases h
    exact hslug.symm
  · rw [if_neg hempty, if_neg hlarge, if_pos hversion] at h
    cases h

def untouchedSkill (input : UploadInput) (manifest : Manifest) (slug : String) : Skill where
  id := 0
  slug := slug
  displayName := displayNameOf input manifest slug
  description := descriptionOf input manifest
  visibility := "restricted"
  createdAt := 0
  updatedAt := 0

theorem createVersion_first (hcheck : checkVersion v = none) (hnone : s.versions = []) :
    ∃ repo w, (createVersion i path archive v).alone (fun _ => {}) s = (repo, .ok w) ∧
      w.skillID = v.skillID ∧ repo.skills.map Skill.id = s.skills.map Skill.id := by
  rw [createVersion, alone_act, hcheck, hnone]
  exact ⟨_, _, rfl, rfl, map_modify_eq (by exact fun _ _ => rfl)⟩

theorem publish_first {json : String} (hprep : prepare tools.toTools input = .ok (manifest, slug))
    (hjson : manifest.json = .ok json) (hsha : tools.sha256 input.archive ≠ "")
    (hversions : s.versions = []) (skill : Skill) :
    ∃ repo v, (publish tools.toTools 0 input manifest skill).alone (fun _ => {}) s =
        (repo, .ok v) ∧ v.skillID = skill.id ∧
      repo.skills.map Skill.id = s.skills.map Skill.id := by
  obtain ⟨hempty, -, hname, -⟩ := prepare_ok hprep
  have hcheck : ∀ v : SkillVersion, v.version = input.version →
      v.archiveSize = input.archive.length → v.archiveSHA256 = tools.sha256 input.archive →
      checkVersion v = none := by
    intro v h1 h2 h3
    rw [checkVersion, h1, h2, h3, if_neg hname, if_neg hempty, if_neg hsha]
  rw [publish, alone_bind, writeArchive, alone_act]
  rw [hjson]
  exact createVersion_first (hcheck _ rfl rfl rfl) hversions

theorem upload_untouched (hacc : Accepted tools input) (hslug : input.slugOverride ≠ "") :
    ∃ manifest repo v, (upload tools.toTools 0 input).alone (fun _ => {})
        { skills := [untouchedSkill input manifest input.slugOverride], nextID := 1 } =
          (repo, .ok v) ∧
      v.skillID = 0 ∧ repo.skills.any (fun sk => sk.id = 0) = true := by
  obtain ⟨manifest, slug, json, hprep, hjson, hsha⟩ := hacc
  obtain ⟨-, -, -, hslug'⟩ := prepare_ok hprep
  rw [if_neg hslug] at hslug'
  subst hslug'
  let skill := untouchedSkill input manifest input.slugOverride
  let s : State := { skills := [skill], nextID := 1 }
  have hlook : (attempt (fun e : Skills.Env => e.storeErr) fun (s : State) _ =>
      (s, s.skills.find? fun sk => sk.slug = input.slugOverride)).alone (fun _ => {}) s =
        (s, .ok (some skill)) := by
    rw [attempt, alone_act]
    simp [s, skill, untouchedSkill]
  have hens : (ensureSkill 0 input manifest input.slugOverride (some skill)).alone
      (fun _ => {}) s = (s, .ok skill) := by
    simp [ensureSkill, skill, untouchedSkill]
  obtain ⟨repo, v, hrun, hid, hskills⟩ := publish_first hprep hjson hsha (s := s) rfl skill
  refine ⟨manifest, repo, v, ?_, hid, ?_⟩
  · rw [upload, hprep]
    rw [alone_bind, hlook]
    rw [alone_bind, hens]
    exact hrun
  have hmem : 0 ∈ repo.skills.map Skill.id := by
    rw [hskills]
    exact mem_singleton_self _
  obtain ⟨sk, hsk, hzero⟩ := mem_map.mp hmem
  simp only [any_eq_true, decide_eq_true_eq]
  exact ⟨sk, hsk, hzero⟩

def trackedAt (subpath : String) : SkillUpstream :=
  ⟨0, "git", "https://git.example/skills", subpath, "HEAD", none, none, none, none, 0, 0⟩

theorem headers_change (hset : SetsUpstream r) :
    ∃ subpath, ∀ db : Database, db.repo.skills.any (fun sk => sk.id = 0) = true →
      db.upstreams = [trackedAt subpath] →
      ((applyUpstreamHeaders r 0).alone (fun _ => {}) db).1.upstreams.map SkillUpstream.source ≠
        [(trackedAt subpath).source] := by
  by_cases hclear : equalFold r.clearUpstream "true" = true
  · refine ⟨"", fun db _ hup => ?_⟩
    rw [applyUpstreamHeaders, if_pos hclear, alone_bind, clearUpstreamRow, exec, attempt, alone_act]
    simp [hup, Table.delete, trackedAt]
  obtain ⟨hne, p, hp, hurl, htype, hvalid⟩ := hset.resolve_left hclear
  refine ⟨p.subpath ++ "/", fun db hskill hup => ?_⟩
  have hgit : (if p.type = "" then "git" else p.type) = "git" := by
    rcases htype with h | h <;> simp [h]
  have hsub : p.subpath ≠ p.subpath ++ "/" := by
    intro h
    have hlen := congrArg String.length h
    simp [String.length_append] at hlen
  rw [applyUpstreamHeaders, if_neg hclear, if_pos hne, hp]
  dsimp only
  rw [if_pos ⟨hurl, htype⟩, alone_bind, upsertUpstreamRow, hvalid, hgit]
  rw [alone_act, hskill]
  simp [hup, Table.upsert, Table.find, Table.modify, trackedAt, SkillUpstream.source, hsub]

theorem Reconfigures.serve_alone (h : Reconfigures tools c r slug version)
    (huser : c.user = some user) (hversion : version ≠ "") {db : Database} {sk : Skill × Bool}
    (hlook : (getSkillBySlug slug).alone (fun _ => {}) db = (db, .ok (some sk))) :
    (serve tools c r).alone (fun _ => {}) db =
      (uploadVersion tools c user r slug version).alone (fun _ => {}) db := by
  have hassigned : r.path ≠ "/api/skills/assigned" := by
    intro hpath
    have hparts := h.parts
    rw [hpath, show pathParts "/api/skills/assigned" = ["assigned"] by decide] at hparts
    cases hparts
  have hlist : r.path ≠ "/api/skills" := by
    intro hpath
    have hprefix := h.path
    rw [hpath] at hprefix
    exact absurd hprefix (by decide)
  have hget : ¬ (r.method = "GET" ∧ user.role ≠ "admin") := by simp [h.method]
  rw [serve, if_neg hassigned, if_neg hlist, if_pos h.path, handleSkillByPath, huser, h.parts]
  dsimp only [headD_cons]
  rw [if_neg h.named, alone_bind, hlook]
  dsimp only
  rw [if_neg hget, routeSkill, if_pos rfl, if_neg hversion, h.method, if_neg (by decide),
    if_pos rfl, requireCapability, if_pos h.publisher]

/-- **An accepted upload with a header changes the upstream** of some database. -/
theorem Reconfigures.not_kept (h : Reconfigures tools c r slug version) :
    ∃ db, ¬ Kept db ((serve tools c r).alone (fun _ => {}) db).1 := by
  obtain ⟨user, huser, hacc⟩ := h.accepted
  obtain ⟨manifest, repo, v, hrun, hid, hskill⟩ := upload_untouched hacc h.named
  obtain ⟨subpath, hchange⟩ := headers_change h.headers
  obtain ⟨_, _, _, hprep, -, -⟩ := hacc
  obtain ⟨-, hsize, hversion, -⟩ := prepare_ok hprep
  let input : UploadInput := ⟨slug, version, r.body, user.id, "", "", ""⟩
  let db : Database :=
    { repo := { skills := [untouchedSkill input manifest slug], nextID := 1 }
      upstreams := [trackedAt subpath] }
  have hlook : (getSkillBySlug slug).alone (fun _ => {}) db =
      (db, .ok (some (untouchedSkill input manifest slug, false))) := by
    rw [getSkillBySlug, query, attempt, alone_act]
    simp [db, Database.skillBySlug, untouchedSkill]
  have hup : (uploadToRepo tools input).alone (fun _ => {}) db =
      ({ db with repo := repo }, .ok v) := by
    refine (alone_focus (by exact fun _ _ => rfl) (by exact fun _ _ _ => rfl)
      (by exact fun _ => rfl) _ _ db).trans ?_
    exact congrArg (fun p => ({ db with repo := p.1 }, p.2)) hrun
  refine ⟨db, fun hkept => ?_⟩
  rw [h.serve_alone huser hversion hlook, uploadVersion, if_neg (Nat.not_lt.mpr hsize),
    if_neg h.whole, h.visibility, if_neg (by simp), alone_bind, hup] at hkept
  rw [alone_bind, hid] at hkept
  -- what follows leaves the upstreams as the headers have made them
  refine hchange { db with repo := repo } hskill rfl (Eq.trans (Eq.symm ?_) hkept.upstreams)
  refine (Prog.Within.alone (G := Kept) ?_ Kept.refl (fun _ _ _ => Kept.trans) _ _).upstreams
  exact refreshed_within _ _ _

/-- **Upstreams and audiences need `skills:admin`, but for the headers of an upload**: for a
caller who is no administrator and has no key with `skills:admin`, a request leaves them
alone, in every database and whatever fails, exactly when it is not an accepted upload that
asks for a change of the upstream. -/
theorem kept_iff (tools : Tools) (c : Caller) (r : Request)
    (hrole : ∀ u, c.user = some u → u.role ≠ "admin")
    (hkey : ∀ k, c.key = some k → k.hasCapability "skills:admin" = false) :
    (∀ env db, Kept db ((serve tools c r).alone env db).1) ↔
      ¬ ∃ slug version, Reconfigures tools c r slug version := by
  have hadmin : hasCapability c "skills:admin" = false := by
    rw [hasCapability, Bool.or_eq_false_iff]
    refine ⟨?_, ?_⟩
    · cases huser : c.user with
      | none => rfl
      | some u => simpa using hrole u huser
    cases hk : c.key with
    | none => rfl
    | some k => exact hkey k hk
  constructor
  · rintro hkept ⟨slug, version, h⟩
    obtain ⟨db, hdb⟩ := h.not_kept
    exact hdb (hkept _ db)
  · intro h env db
    exact (serve_within hrole hadmin h).alone Kept.refl (fun _ _ _ => Kept.trans) env db

def publisher : Caller where
  user := some ⟨"u1", "ci", "user", .write, none⟩
  key := some ⟨"k1", "u1", "hash", none, false, ["skills:publish"]⟩

def demoRepo : Tools where
  toTools := demoTools

def push (version : String) : Request where
  method := "POST"
  path := "/api/skills/demo/versions/" ++ version
  contentType := "application/gzip"
  body := demoArchive

theorem kept_iff_push :
    ((serve demoRepo publisher (push "1.0.0")).alone (fun _ => {}) {}).2.status = 201 ∧
      ∀ env db, Kept db ((serve demoRepo publisher (push "1.0.0")).alone env db).1 := by
  refine ⟨by decide +kernel, ?_⟩
  refine (kept_iff demoRepo publisher (push "1.0.0") ?_ ?_).mpr ?_
  · rintro u hu
    cases hu
    decide
  · rintro k hk
    cases hk
    decide
  · rintro ⟨slug, version, h⟩
    rcases h.headers with hclear | ⟨hne, -⟩
    · exact absurd hclear (by decide)
    · exact hne rfl

def demoTracked : Database where
  repo :=
    { skills := [⟨0, "demo", "A demo", "A demo", "restricted", none, none, none, 0, 0⟩]
      nextID := 1 }
  upstreams := [trackedAt ""]

/-- The same key sets an upstream with the push of a new skill, and removes that of a skill
with another one. -/
theorem push_reconfigures :
    let set := ((serve demoRepo publisher
      { push "1.0.0" with upstream := "\x7b\"url\":\"https://git.example/x\"\x7d" }).alone
        (fun _ => {}) {}).1
    let clear := ((serve demoRepo publisher
      { push "1.0.0" with clearUpstream := "true" }).alone (fun _ => {}) demoTracked).1
    set.upstreams.map SkillUpstream.source = [(0, "https://git.example/x", "", "HEAD")] ∧
      clear.upstreams = [] ∧ ¬ Kept {} set ∧ ¬ Kept demoTracked clear := by
  intro set clear
  have hset : set.upstreams.map SkillUpstream.source =
      [(0, "https://git.example/x", "", "HEAD")] := by decide +kernel
  have hclear : clear.upstreams = [] := by decide +kernel
  clear_value clear set
  refine ⟨hset, hclear, fun hkept => ?_, fun hkept => ?_⟩
  · have h := hkept.upstreams
    rw [hset] at h
    cases h
  have h := hkept.upstreams
  rw [hclear] at h
  cases h

end ArcRelay.Skills.Api
