import ArcRelay.Skills.Immutable
import ArcRelay.Skills.Latest
import ArcRelay.Skills.Reconcile

/-!
# Yanked versions and the clients

A version can be yanked, and clients that follow the latest version should not be given it
any more.  Three parts of the code meet here: the store, whose pointer to the latest version
is moved by uploads only; `ResolveLatest` (`internal/skills/service.go`), which follows the
pointer and gives up when it leads to a yanked version; and the sync of a client, which
follows the pointer without a look at the version at all.

So what should hold does hold as long as the pointers lead to versions that are not yanked,
and nothing moves a pointer back when the latest version is yanked.  The theorem is about
every interleaving of uploads, yanks and assignments, every client and every failure.

* `NeverYanked`, `ResolvesLatest`, `Current`: what should hold, and when it does.
* `rollout_iff`, `latest_is_last_upload`: the theorems; `yanked_rolledOut`: a client that gets a
  yanked version.
-/

namespace ArcRelay.Skills.Api

open Interleave Prog Json Access Client List Option Table

/-! ### The latest version -/

inductive ResolveError where
  | skillNotFound
  | store (err : String)
  deriving DecidableEq

/-- The skill, and its latest version.  A skill that is found is returned with the error
when only the version is missing. -/
def resolveLatest (slug : String) : Run (Option Skill × Except ResolveError SkillVersion) := do
  match ← getSkillBySlug slug with
  | .error err => pure (none, .error (.store err))
  | .ok none => pure (none, .error .skillNotFound)
  | .ok (some (skill, _)) =>
    if skill.yankedAt ≠ none then pure (none, .error .skillNotFound)
    else if skill.latestVersion.getD "" = "" then pure (some skill, .error .skillNotFound)
    else
      match ← query fun db => db.version skill.id (skill.latestVersion.getD "") with
      | .error err => pure (none, .error (.store err))
      | .ok none => pure (some skill, .error .skillNotFound)
      | .ok (some v) =>
        if v.yankedAt ≠ none then pure (some skill, .error .skillNotFound)
        else pure (some skill, .ok v)

/-! ### Histories -/

inductive Operation where
  | upload (input : UploadInput)
  | yankVersion (id : ℕ) (version : String)
  | unyankVersion (id : ℕ) (version : String)
  | yankSkill (id : ℕ)
  | unyankSkill (id : ℕ)
  | updateSkillMeta (id : ℕ) (displayName description visibility : String)
  | assignSkill (a : SkillAssignment)
  | unassignSkill (id : ℕ) (userID : String)

/-- A program whose result nobody looks at. -/
def ignoring {α : Type} (p : Run α) : Run Unit := do
  let _ ← p
  pure ()

def Operation.run (tools : Tools) : Operation → Run Unit
  | .upload input => ignoring (uploadToRepo tools input)
  | .yankVersion id version => ignoring (yankVersionRow id version)
  | .unyankVersion id version => ignoring (unyankVersionRow id version)
  | .yankSkill id => ignoring (Api.yankSkill id)
  | .unyankSkill id => ignoring (Api.unyankSkill id)
  | .updateSkillMeta id displayName description visibility =>
    ignoring (Api.updateSkillMeta id displayName description visibility)
  | .assignSkill a => ignoring (assignSkillRow a)
  | .unassignSkill id userID => ignoring (unassignSkillRow id userID)

def history (tools : Tools) (users : List UserRow) (ops : List Operation) :
    Pool Database Env Unit :=
  ⟨{ users := users }, ops.map (Operation.run tools)⟩

def after (tools : Tools) (users : List UserRow) (ops : List Operation)
    (sched : List (Event Empty Env)) : Database :=
  ((history tools users ops).exec Empty.elim sched).state

/-! ### What should hold -/

def assignedRequest : Request where
  method := "GET"
  path := "/api/skills/assigned"

def Unpinned (a : AssignedSkill) : Prop := a.pinnedVersion.getD "" = ""

/-- Whatever client of a user syncs with a listing of this database, it neither installs nor
keeps as wanted a version of a skill without a pin that is yanked there: its report does not
say so, and it makes no marker of it. -/
def NeverYanked (tools : Tools) (db : Database) (user : UserRow) : Prop :=
  ∀ (c : Caller) (relay : ℕ → Env) (m : SkillManager) (dryRun : Bool) (env : ℕ → Client.Env)
    (d : Dir), c.user = some user →
    (env 0).reply = .ok ((serve tools c assignedRequest).alone relay db).2 →
    ∀ a ∈ db.assignedForUser user.id, Unpinned a →
    ∀ v ∈ db.repo.versions, v.skillID = a.skill.id → v.yankedAt ≠ none →
      (∀ report, ((sync m dryRun).alone env d).2 = .ok report → ∀ act ∈ report.rolledOut,
        ¬ (act.slug = a.skill.slug ∧ act.version = v.version)) ∧
      ∀ marker, ((sync m dryRun).alone env d).1.Marked marker → ¬ d.Marked marker →
        ¬ (marker.slug = a.skill.slug ∧ marker.version = v.version)

/-- A skill that is not yanked is resolved to the last upload that is not yanked, if there is
one. -/
def ResolvesLatest (db : Database) : Prop :=
  ∀ sk ∈ db.repo.skills, sk.yankedAt = none → ∀ v,
    ((db.repo.uploadsOf sk.id).filter fun v => v.yankedAt = none).getLast? = some v →
    ∀ env : ℕ → Env, (∀ n, (env n).storeErr = none) →
      ((resolveLatest sk.slug).alone env db).2 = (some sk, .ok v)

/-- The condition: the last upload of a skill is not yanked, if the skill is listed for a
user without a pin, or if it is not yanked and has a version that is not. -/
structure Current (db : Database) : Prop where
  listed : ∀ (user : UserRow), ∀ a ∈ db.assignedForUser user.id, Unpinned a →
    ∀ v, db.repo.lastUpload a.skill.id = some v → v.yankedAt = none
  resolvable : ∀ sk ∈ db.repo.skills, sk.yankedAt = none → ∀ v,
    db.repo.lastUpload sk.id = some v →
    ∀ w ∈ db.repo.versions, w.skillID = sk.id → w.yankedAt = none → v.yankedAt = none

/-! ### Every state of a history -/

def GrowsRepo (db db' : Database) : Prop := Grows db.repo db'.repo

theorem GrowsRepo.refl (db : Database) : GrowsRepo db db := Grows.refl _

theorem GrowsRepo.trans {a b c : Database} (hab : GrowsRepo a b) (hbc : GrowsRepo b c) :
    GrowsRepo a c :=
  Grows.trans hab hbc

def SameRepo (db db' : Database) : Prop := SamePointers db.repo db'.repo

theorem SameRepo.refl (db : Database) : SameRepo db db := SamePointers.refl _

theorem exec_same {f : Database → Env → Database} (h : ∀ db e, SameRepo db (f db e)) :
    (exec f).Within SameRepo :=
  within_attempt SameRepo.refl h

theorem world_same (ev : WorldEvent) (s : State) : SamePointers s (world ev s) := by
  cases ev with
  | yankVersion id version yankedAt => exact ⟨rfl, map_modify_eq (by exact fun _ _ => rfl), rfl⟩
  | yankSkill id yankedAt now => exact ⟨map_modify_eq (by exact fun _ _ => rfl), rfl, rfl⟩

theorem setVersionYanked_same (id : ℕ) (version : String) (yankedAt : Env → Option ℤ) :
    (setVersionYanked id version yankedAt).Within SameRepo := by
  refine within_act.mpr fun db e => ?_
  cases e.storeErr with
  | some err => exact SameRepo.refl db
  | none => ?_
  dsimp only
  split
  · exact SameRepo.refl db
  · exact world_same (.yankVersion id version (yankedAt e)) db.repo

theorem assignSkillRow_same (a : SkillAssignment) : (assignSkillRow a).Within SameRepo := by
  refine within_act.mpr fun db e => ?_
  cases e.storeErr with
  | some err => exact SameRepo.refl db
  | none => ?_
  dsimp only
  split
  · exact SameRepo.refl db
  · exact SameRepo.refl db

theorem ignoring_safe {α : Type} {p : Run α} (hp : p.Within SameRepo) (db : Database) :
    (ignoring p).Safe (fun db => Pointed db.repo) GrowsRepo GrowsRepo (fun _ _ => True) db := by
  refine Prog.Within.safe (hp.bind fun _ => within_pure _) ?_ db
  exact fun db db' hI hsame => ⟨hI.congr hsame, Nat.le_of_eq hsame.nextID.symm⟩

theorem Operation.run_safe (tools : Tools) (op : Operation) (db : Database) :
    (op.run tools).Safe (fun db => Pointed db.repo) GrowsRepo GrowsRepo (fun _ _ => True) db := by
  cases op with
  | upload input =>
    refine safe_bind (P := fun _ _ => True) GrowsRepo.refl ?_ ?_
    · exact (upload_pointed tools.toTools 0 input db.repo).focus fun _ _ => rfl
    · exact fun _ _ _ _ _ _ _ => trivial
  | yankVersion id version | unyankVersion id version =>
    exact ignoring_safe (setVersionYanked_same id version _) db
  | yankSkill id =>
    refine ignoring_safe (exec_same fun db e => ?_) db
    exact world_same (.yankSkill id (some e.now) e.now) db.repo
  | unyankSkill id =>
    refine ignoring_safe (exec_same fun db e => ?_) db
    exact world_same (.yankSkill id none e.now) db.repo
  | updateSkillMeta id displayName description visibility =>
    refine ignoring_safe ?_ db
    unfold Api.updateSkillMeta
    split
    · exact within_pure _
    refine exec_same fun db e => ?_
    exact ⟨map_modify_eq (by exact fun _ _ => rfl), rfl, rfl⟩
  | assignSkill a => exact ignoring_safe (assignSkillRow_same a) db
  | unassignSkill id userID =>
    refine ignoring_safe (exec_same fun db e => ?_) db
    exact SamePointers.refl db.repo

/-- **Pointers name the last upload**, in every state of a history. -/
theorem history_pointed (tools : Tools) (users : List UserRow) (ops : List Operation)
    (sched : List (Event Empty Env)) : Pointed (after tools users ops sched).repo := by
  have hstart : (history tools users ops).AllSafe (fun db => Pointed db.repo)
      (fun _ => GrowsRepo) (fun _ => GrowsRepo) (fun _ _ _ => True) := by
    refine ⟨pointed_start, fun i p hp => ?_⟩
    rw [history, getElem?_map] at hp
    obtain ⟨op, -, rfl⟩ := map_eq_some_iff.mp hp
    exact op.run_safe tools _
  exact (Pool.exec_safe (fun _ db => GrowsRepo.refl db) (fun _ _ _ _ => GrowsRepo.trans)
    (fun _ _ _ _ _ _ h => h) (fun h => h.elim) hstart sched).inv

/-! ### Lookups -/

variable {db : Database} {v : SkillVersion} {userID : String} {a : AssignedSkill}

theorem skillBySlug_mem (h : Pointed db.repo) {sk : Skill} (hsk : sk ∈ db.repo.skills) :
    db.skillBySlug sk.slug = some sk :=
  find_of_mem h.slugs hsk

theorem version_mem (h : Pointed db.repo) (hv : v ∈ db.repo.versions) :
    db.version v.skillID v.version = some v := by
  have hfind := find_of_mem h.keys hv
  rw [← hfind, Database.version, Table.find]
  simp only [SkillVersion.key, Prod.mk.injEq]

theorem mem_lastUpload {s : State} {id : ℕ} (h : s.lastUpload id = some v) :
    v ∈ s.versions ∧ v.skillID = id := by
  have hmem := mem_of_getLast? h
  rw [State.uploadsOf, mem_filter, decide_eq_true_eq] at hmem
  exact hmem

/-- **The latest version of a skill is its last upload**, after every history of uploads, yanks,
updates and assignments in any interleaving: the pointer leads to the row of that upload, and is
empty only if there is none. -/
theorem latest_is_last_upload (tools : Tools) (users : List UserRow) (ops : List Operation)
    (sched : List (Event Empty Env)) (slug : String) :
    let db := after tools users ops sched
    (db.skillBySlug slug).map (fun sk => sk.latestVersion.bind (db.version sk.id)) =
      (db.skillBySlug slug).map fun sk => db.repo.lastUpload sk.id := by
  intro db
  have h : Pointed db.repo := history_pointed tools users ops sched
  cases hfind : db.skillBySlug slug with
  | none => rfl
  | some sk => ?_
  rw [map_some, map_some, h.latest sk (mem_of_find hfind)]
  cases hlast : db.repo.lastUpload sk.id with
  | none => rfl
  | some v => ?_
  obtain ⟨hv, hid⟩ := mem_lastUpload hlast
  rw [map_some, bind_some, ← hid, version_mem h hv]

theorem mem_assignedForUser (h : a ∈ db.assignedForUser userID) :
    a.skill ∈ db.repo.skills ∧
      a.pinnedVersion = (db.assignment a.skill.id userID).bind SkillAssignment.version := by
  obtain ⟨sk, hsk, rfl⟩ := mem_map.mp h
  rw [mem_mergeSort, mem_filter] at hsk
  exact ⟨hsk.1, rfl⟩

theorem assigned_eq_of_slug (h : Pointed db.repo) {b : AssignedSkill}
    (ha : a ∈ db.assignedForUser userID) (hb : b ∈ db.assignedForUser userID)
    (hslug : a.skill.slug = b.skill.slug) : a = b := by
  obtain ⟨hmem, hpin⟩ := mem_assignedForUser ha
  obtain ⟨hmem', hpin'⟩ := mem_assignedForUser hb
  have hskill : a.skill = b.skill := by
    have hfind := skillBySlug_mem h hmem
    rw [hslug, skillBySlug_mem h hmem'] at hfind
    exact (some.inj hfind).symm
  cases a with
  | mk skill pin =>
    cases b with
    | mk skill' pin' =>
      obtain rfl : skill = skill' := hskill
      rw [AssignedSkill.mk.injEq]
      exact ⟨rfl, hpin.trans hpin'.symm⟩

theorem wantVersion_unpinned (h : Unpinned a) : wantVersion a = a.skill.latestVersion.getD "" := by
  unfold Unpinned at h
  unfold wantVersion
  split
  · next pin hpin =>
    rw [hpin, getD_some] at h
    rw [if_neg (by simp [h])]
  · rfl

theorem wantVersion_lastUpload (h : Pointed db.repo) (ha : a ∈ db.assignedForUser userID)
    (hpin : Unpinned a) :
    wantVersion a = ((db.repo.lastUpload a.skill.id).map SkillVersion.version).getD "" := by
  rw [wantVersion_unpinned hpin, h.latest _ (mem_assignedForUser ha).1]

theorem lastUpload_of_want (h : Pointed db.repo) (ha : a ∈ db.assignedForUser userID)
    (hpin : Unpinned a) (hv : v ∈ db.repo.versions) (hid : v.skillID = a.skill.id)
    (hwant : wantVersion a = v.version) : db.repo.lastUpload a.skill.id = some v := by
  rw [wantVersion_lastUpload h ha hpin] at hwant
  cases hlast : db.repo.lastUpload a.skill.id with
  | none =>
    rw [hlast] at hwant
    exact absurd hwant.symm (h.named v hv)
  | some w =>
    rw [hlast, map_some, getD_some] at hwant
    obtain ⟨hw, hwid⟩ := mem_lastUpload hlast
    have hfind := version_mem h hw
    rw [hwid, hwant, ← hid, version_mem h hv] at hfind
    exact hfind.symm

theorem serve_assigned {tools : Tools} {c : Caller} {user : UserRow} (huser : c.user = some user)
    (relay : ℕ → Env) (db : Database) :
    ((serve tools c assignedRequest).alone relay db).2 =
      match (relay 0).storeErr with
      | some _ => internalError
      | none => ⟨200, .assigned (db.assignedForUser user.id)⟩ := by
  have hpath : assignedRequest.path = "/api/skills/assigned" := rfl
  have hmethod : ¬ assignedRequest.method ≠ "GET" := fun h => h rfl
  rw [serve, if_pos hpath, handleAssigned, huser]
  dsimp only
  rw [if_neg hmethod]
  cases hstore : (relay 0).storeErr with
  | some err =>
    rw [alone_query_error hstore]
    rfl
  | none =>
    rw [alone_query hstore]
    rfl

/-! ### The clients -/

variable {tools : Tools} {user : UserRow}

theorem not_wanted_of_yanked (h : Pointed db.repo) (ha : a ∈ db.assignedForUser user.id)
    (hpin : Unpinned a) (hcurrent : ∀ v, db.repo.lastUpload a.skill.id = some v → v.yankedAt = none)
    (hv : v ∈ db.repo.versions) (hid : v.skillID = a.skill.id) (hyanked : v.yankedAt ≠ none) :
    ¬ Wanted (db.assignedForUser user.id) a.skill.slug v.version := by
  rintro ⟨b, hb, hslug, hwant⟩
  obtain rfl := assigned_eq_of_slug h hb ha hslug
  exact hyanked (hcurrent v (lastUpload_of_want h ha hpin hv hid hwant))

theorem neverYanked_of_listed (h : Pointed db.repo)
    (hlisted : ∀ a ∈ db.assignedForUser user.id, Unpinned a →
      ∀ v, db.repo.lastUpload a.skill.id = some v → v.yankedAt = none) :
    NeverYanked tools db user := by
  intro c relay m dryRun env d huser hreply a ha hpin v hv hid hyanked
  have hnot := not_wanted_of_yanked h ha hpin (hlisted a ha hpin) hv hid hyanked
  rw [serve_assigned huser] at hreply
  cases hstore : (relay 0).storeErr with
  | some err =>
    -- the listing fails, and the client does nothing
    have hlist : listAssignedSkills (env 0).reply = .error (.status 500) := by
      rw [hreply, hstore]
      rfl
    rw [sync_alone_error hlist]
    refine ⟨fun report hreport => ?_, fun marker hmark hold => absurd hmark hold⟩
    cases hreport
  | none =>
    have hlist : listAssignedSkills (env 0).reply = .ok (db.assignedForUser user.id) := by
      rw [hreply, hstore]
      rfl
    rw [sync_alone hlist]
    constructor
    · rintro report hreport act hact ⟨hslug, hversion⟩
      have hwant := (reconcile_wanted m dryRun _).alone _ d report hreport act hact
      rw [hslug, hversion] at hwant
      exact hnot hwant
    rintro marker hmark hold ⟨hslug, hversion⟩
    have hmarks := (reconcile_marks m dryRun (db.assignedForUser user.id)).alone Marks.refl
      (fun _ _ _ => Marks.trans) (fun n => env (n + 1)) d
    rcases hmarks marker hmark with hold' | hwant
    · exact hold hold'
    rw [hslug, hversion] at hwant
    exact hnot hwant

theorem NeverYanked.listed (hnever : NeverYanked tools db user) (h : Pointed db.repo)
    (ha : a ∈ db.assignedForUser user.id) (hpin : Unpinned a)
    (hlast : db.repo.lastUpload a.skill.id = some v) : v.yankedAt = none := by
  by_contra hyanked
  obtain ⟨hv, hid⟩ := mem_lastUpload hlast
  have hwant : wantVersion a = v.version := by
    rw [wantVersion_lastUpload h ha hpin, hlast]
    rfl
  -- a client of the user, with this version and nothing else
  let c : Caller := ⟨some user, none⟩
  let m : SkillManager := ⟨"", fun _ => "", fun _ => .ok ()⟩
  let env : ℕ → Client.Env := fun _ =>
    { reply := .ok ⟨200, .assigned (db.assignedForUser user.id)⟩ }
  let marker : SkillMarker := ⟨a.skill.slug, v.version, "", ""⟩
  have hlist : listAssignedSkills (env 0).reply = .ok (db.assignedForUser user.id) := rfl
  have henv : ∀ n, (env (n + 1)).fsErr = none := fun _ => rfl
  have hversion : marker.version = wantVersion a := hwant.symm
  obtain ⟨report, hreport, hkept⟩ :=
    reconcile_keeps m false ha (hwant ▸ h.named v hv) henv rfl hversion a.skill.slug
  have hreply : (env 0).reply = .ok ((serve tools c assignedRequest).alone (fun _ => {}) db).2 := by
    have huser : c.user = some user := rfl
    rw [serve_assigned huser]
  obtain ⟨hnot, -⟩ := hnever c (fun _ => {}) m false env _ rfl hreply a ha hpin v hv hid hyanked
  refine hnot report hreport ⟨a.skill.slug, wantVersion a, ""⟩ ?_ ⟨rfl, hwant⟩
  rw [SkillSyncReport.rolledOut, mem_append]
  exact Or.inr hkept

/-! ### The latest version -/

variable {sk : Skill}

theorem resolveLatest_last (h : Pointed db.repo) (hsk : sk ∈ db.repo.skills)
    (hactive : sk.yankedAt = none) (hlast : db.repo.lastUpload sk.id = some v) {env : ℕ → Env}
    (henv : ∀ n, (env n).storeErr = none) :
    ((resolveLatest sk.slug).alone env db).2 =
      (some sk, if v.yankedAt ≠ none then .error .skillNotFound else .ok v) := by
  obtain ⟨hv, hid⟩ := mem_lastUpload hlast
  have hlatest : sk.latestVersion.getD "" = v.version := by
    rw [h.latest sk hsk, hlast]
    rfl
  have hfind : db.version sk.id v.version = some v := hid ▸ version_mem h hv
  rw [resolveLatest, getSkillBySlug, alone_query (henv 0), skillBySlug_mem h hsk, map_some]
  dsimp only
  rw [if_neg (not_not_intro hactive), hlatest, if_neg (h.named v hv), alone_query (henv 1), hfind]
  dsimp only
  split
  · rfl
  · rfl

theorem getLast?_filter_of_last {α : Type} {p : α → Bool} {l : List α} {x : α}
    (hlast : l.getLast? = some x) (hp : p x = true) : (l.filter p).getLast? = some x := by
  obtain ⟨front, rfl⟩ := getLast?_eq_some_iff.mp hlast
  rw [filter_append, filter_singleton, hp, cond_true, getLast?_concat]

theorem resolvesLatest_of_resolvable (h : Pointed db.repo)
    (hresolvable : ∀ sk ∈ db.repo.skills, sk.yankedAt = none → ∀ v,
      db.repo.lastUpload sk.id = some v →
      ∀ w ∈ db.repo.versions, w.skillID = sk.id → w.yankedAt = none → v.yankedAt = none) :
    ResolvesLatest db := by
  intro sk hsk hactive w hw env henv
  -- the version to be found is some upload, so there is a last one, and it is not yanked
  obtain ⟨hmem, hnot⟩ := mem_filter.mp (mem_of_getLast? hw)
  rw [State.uploadsOf, mem_filter, decide_eq_true_eq] at hmem
  cases hlast : db.repo.lastUpload sk.id with
  | none =>
    rw [State.lastUpload, getLast?_eq_none_iff, State.uploadsOf, filter_eq_nil_iff] at hlast
    exact absurd (decide_eq_true hmem.2) (hlast w hmem.1)
  | some v =>
    have hv : v.yankedAt = none :=
      hresolvable sk hsk hactive v hlast w hmem.1 hmem.2 (of_decide_eq_true hnot)
    rw [getLast?_filter_of_last hlast (decide_eq_true hv)] at hw
    cases hw
    rw [resolveLatest_last h hsk hactive hlast henv, if_neg (not_not_intro hv)]

theorem ResolvesLatest.resolvable (hres : ResolvesLatest db) (h : Pointed db.repo)
    (hsk : sk ∈ db.repo.skills) (hactive : sk.yankedAt = none)
    (hlast : db.repo.lastUpload sk.id = some v) {w : SkillVersion} (hw : w ∈ db.repo.versions)
    (hid : w.skillID = sk.id) (hnot : w.yankedAt = none) : v.yankedAt = none := by
  by_contra hyanked
  have hmem : w ∈ (db.repo.uploadsOf sk.id).filter fun v => v.yankedAt = none := by
    rw [State.uploadsOf, mem_filter, mem_filter]
    exact ⟨⟨hw, decide_eq_true hid⟩, decide_eq_true hnot⟩
  obtain ⟨u, hu⟩ : ∃ u, ((db.repo.uploadsOf sk.id).filter fun v => v.yankedAt = none).getLast? =
      some u := by
    rw [← isSome_iff_exists, getLast?_isSome]
    exact ne_nil_of_mem hmem
  have hfound := hres sk hsk hactive u hu (fun _ => {}) fun _ => rfl
  rw [resolveLatest_last h hsk hactive hlast fun _ => rfl, if_pos hyanked] at hfound
  cases hfound

/-- **Yanked versions are not rolled out if and only if the pointers are current**: after any
history of uploads, yanks and assignments, in any interleaving, no client that follows the
latest version installs or keeps one that is yanked and every skill is resolved to its last
upload that is not yanked, exactly when the last uploads of the skills concerned are not
yanked. -/
theorem rollout_iff (tools : Tools) (users : List UserRow) (ops : List Operation)
    (sched : List (Event Empty Env)) :
    ((∀ user, NeverYanked tools (after tools users ops sched) user) ∧
        ResolvesLatest (after tools users ops sched)) ↔
      Current (after tools users ops sched) := by
  have h := history_pointed tools users ops sched
  constructor
  · rintro ⟨hnever, hres⟩
    refine ⟨fun user a ha hpin v hlast => ?_, fun sk hsk hactive v hlast w hw hid hnot => ?_⟩
    · exact (hnever user).listed h ha hpin hlast
    · exact hres.resolvable h hsk hactive hlast hw hid hnot
  intro hcurrent
  refine ⟨fun user => ?_, ?_⟩
  · exact neverYanked_of_listed h (hcurrent.listed user)
  · exact resolvesLatest_of_resolvable h hcurrent.resolvable

def demoRelay : Tools where
  toTools := demoTools

def demoUser : UserRow := ⟨"u1", "alice", "user", .read, none⟩

def demoVersion (version : String) : Operation :=
  .upload { demoInput demoArchive with version := version }

def inTurn (n : ℕ) : List (Event Empty Env) :=
  (List.range n).flatMap fun i => List.replicate 4 (.run i {})

def replaced : Database :=
  after demoRelay [demoUser] [demoVersion "1.0.0", .assignSkill ⟨0, "u1", none, none, 0⟩,
    .yankVersion 0 "1.0.0", demoVersion "1.1.0"] (inTurn 4)

theorem rollout_iff_replaced :
    replaced.repo.versions.map (fun v => (v.version, v.yankedAt)) =
        [("1.0.0", some 0), ("1.1.0", none)] ∧
      (∀ user, NeverYanked demoRelay replaced user) ∧ ResolvesLatest replaced := by
  have hversions : replaced.repo.versions.map (fun v => (v.version, v.yankedAt)) =
      [("1.0.0", some 0), ("1.1.0", none)] := by decide +kernel
  have hlast : ∀ sk ∈ replaced.repo.skills, ∀ v ∈ replaced.repo.lastUpload sk.id,
      v.yankedAt = none := by decide +kernel
  have hiff : ((∀ user, NeverYanked demoRelay replaced user) ∧ ResolvesLatest replaced) ↔
      Current replaced :=
    rollout_iff demoRelay [demoUser] [demoVersion "1.0.0", .assignSkill ⟨0, "u1", none, none, 0⟩,
      .yankVersion 0 "1.0.0", demoVersion "1.1.0"] (inTurn 4)
  refine ⟨hversions, hiff.mpr ⟨?_, ?_⟩⟩
  · intro user a ha _ v hv
    exact hlast a.skill (mem_assignedForUser ha).1 v hv
  · intro sk hsk _ v hv _ _ _ _
    exact hlast sk hsk v hv

def withdrawn : Database :=
  after demoRelay [demoUser] [demoVersion "1.0.0", demoVersion "1.1.0",
    .assignSkill ⟨0, "u1", none, none, 0⟩, .yankVersion 0 "1.1.0"] (inTurn 4)

def answer (db : Database) (path : String) : Response :=
  ((serve demoRelay ⟨some demoUser, none⟩ { method := "GET", path := path }).alone
    (fun _ => {}) db).2

def demoManager : SkillManager := ⟨"https://relay.example", demoTools.sha256, fun _ => .ok ()⟩

def replies (db : Database) (n : ℕ) : Client.Env where
  reply := .ok (answer db (if n = 0 then "/api/skills/assigned"
    else "/api/skills/demo/versions/1.1.0/archive"))

def firstSync (db : Database) : Dir × Except SyncError SkillSyncReport :=
  (sync demoManager false).alone (replies db) []

/-- A new client gets the yanked version, and nothing is resolved although there is a version
that is not yanked. -/
theorem yanked_rolledOut :
    withdrawn.repo.versions.map (fun v => (v.version, v.yankedAt)) =
        [("1.0.0", none), ("1.1.0", some 0)] ∧
      (firstSync withdrawn).2 = .ok { installed := [⟨"demo", "1.1.0", ""⟩] } ∧
      (firstSync withdrawn).1.map Prod.fst = ["demo"] ∧
      ((resolveLatest "demo").alone (fun _ => {}) withdrawn).2.2 = .error .skillNotFound ∧
      ¬ NeverYanked demoRelay withdrawn demoUser ∧ ¬ ResolvesLatest withdrawn := by
  have hversions : withdrawn.repo.versions.map (fun v => (v.version, v.yankedAt)) =
      [("1.0.0", none), ("1.1.0", some 0)] := by decide +kernel
  have hsync : (firstSync withdrawn).2 = .ok { installed := [⟨"demo", "1.1.0", ""⟩] } := by
    decide +kernel
  have hdir : (firstSync withdrawn).1.map Prod.fst = ["demo"] := by decide +kernel
  have hresolve : ((resolveLatest "demo").alone (fun _ => {}) withdrawn).2.2 =
      .error .skillNotFound := by decide +kernel
  have hreply : ∀ db, (replies db 0).reply =
      .ok ((serve demoRelay ⟨some demoUser, none⟩ assignedRequest).alone (fun _ => {}) db).2 :=
    fun _ => rfl
  have hlisted : ∃ a ∈ withdrawn.assignedForUser demoUser.id, a.skill.slug = "demo" ∧
      a.pinnedVersion = none ∧ ∃ v ∈ withdrawn.repo.versions, v.skillID = a.skill.id ∧
        v.version = "1.1.0" ∧ v.yankedAt ≠ none := by decide +kernel
  have hkept : ∃ sk ∈ withdrawn.repo.skills, sk.yankedAt = none ∧ sk.slug = "demo" ∧
      (((withdrawn.repo.uploadsOf sk.id).filter fun v => v.yankedAt = none).getLast?).isSome := by
    decide +kernel
  -- the run is evaluated; from here on only these facts about it count
  generalize withdrawn = db at *
  refine ⟨hversions, hsync, hdir, hresolve, fun hnever => ?_, fun hres => ?_⟩
  · obtain ⟨a, ha, hslug, hpin, v, hv, hid, hversion, hyanked⟩ := hlisted
    have hunpinned : Unpinned a := by rw [Unpinned, hpin, getD_none]
    obtain ⟨hnot, -⟩ := hnever ⟨some demoUser, none⟩ (fun _ => {}) demoManager false (replies db)
      [] rfl (hreply db) a ha hunpinned v hv hid hyanked
    exact hnot _ hsync ⟨"demo", "1.1.0", ""⟩ (by decide) ⟨hslug.symm, hversion.symm⟩
  obtain ⟨sk, hsk, hactive, hslug, hsome⟩ := hkept
  obtain ⟨v, hv⟩ := isSome_iff_exists.mp hsome
  have hfound := hres sk hsk hactive v hv (fun _ => {}) fun _ => rfl
  rw [hslug] at hfound
  rw [hfound] at hresolve
  cases hresolve

end ArcRelay.Skills.Api
