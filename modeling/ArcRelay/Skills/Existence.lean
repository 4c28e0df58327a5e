import ArcRelay.Skills.Api

/-!
# Whether a restricted skill exists

A user without any capability should not learn whether a restricted skill exists that is not
assigned to them: the answer to a request should be the same with and without it.  For `GET`
it is, since the handler answers that there is no such skill in both cases.  For the other
methods the order is the other way round: a skill that is missing is reported first, and what
comes later (a missing capability, a method that is not allowed, an unknown part of the path)
is said only about skills that exist.  The one exception is the upload, for which a missing
skill is not an error.

* `Database.without`: the database without the skill.
* `existence_hidden_iff`, `existence_leaks`: when the answers are the same, and a `PATCH` that
  tells.
-/

namespace ArcRelay.Skills.Api

open Interleave Access Option

/-- The database as it would be if there were no such skill. -/
def Database.without (db : Database) (sk : Skill) : Database :=
  { db with
    repo.skills := db.repo.skills.filter fun s => s.slug ≠ sk.slug
    repo.versions := db.repo.versions.filter fun v => v.skillID ≠ sk.id
    assignments := db.assignments.filter fun a => a.skillID ≠ sk.id
    upstreams := db.upstreams.filter fun u => u.skillID ≠ sk.id
    outdated := db.outdated.filter (· ≠ sk.id) }

theorem skillBySlug_without (db : Database) (sk : Skill) :
    (db.without sk).skillBySlug sk.slug = none := by
  simp [Database.without, Database.skillBySlug]

section

variable (tools : Tools) {c : Caller} {u : UserRow} {r : Request} {env : ℕ → Env} {db : Database}
  {sk : Skill}

theorem hasCapability_false (huser : c.user = some u) (hrole : u.role ≠ "admin")
    (hcaps : ∀ k, c.key = some k → k.capabilities = []) (cap : String) :
    hasCapability c cap = false := by
  rw [hasCapability, huser, Bool.or_eq_false_iff]
  refine ⟨by simpa using hrole, ?_⟩
  cases hk : c.key with
  | none => rfl
  | some k => simp [APIKey.hasCapability, hcaps k hk]

theorem userCanRead_false (env : ℕ → Env) {α : Type} {k : Bool → Run α} (hrole : u.role ≠ "admin")
    (hvis : sk.visibility = "restricted")
    (hun : ∀ a ∈ db.assignments, a.skillID = sk.id → a.userID ≠ u.id) :
    ∃ env', (userCanRead u sk >>= k).alone env db = (k false).alone env' db := by
  have hpublic : sk.visibility ≠ "public" := by simp [hvis]
  have hrows : (db.listAssignments sk.id).any (fun a => a.userID = u.id) = false := by
    simp only [Database.listAssignments, List.any_eq_false, decide_eq_true_eq]
    intro a ha
    rw [List.mem_mergeSort, List.mem_filter, decide_eq_true_eq] at ha
    exact hun a ha.1 ha.2
  unfold userCanRead
  rw [if_neg hrole]
  split
  · exact ⟨env, rfl⟩
  refine ⟨fun n => env (n + 1), ?_⟩
  rw [Prog.bind_bind]
  -- a failed lookup of the assignments is read as no permission
  cases hstore : (env 0).storeErr with
  | some err => exact alone_query_error hstore
  | none => ?_
  rw [alone_query hstore]
  dsimp only
  rw [hrows]
  rfl

theorem handleSkillByPath_missing (huser : c.user = some u) {slug : String}
    (hslug : (pathParts r.path).headD "" = slug) (hne : slug ≠ "")
    (hstore : (env 0).storeErr = none) (hnone : db.skillBySlug slug = none) :
    ∃ env', (handleSkillByPath tools c r).alone env db =
      if isVersionUpload r then
        (routeSkill tools c u r none (pathParts r.path)).alone env' db
      else (db, skillNotFound) := by
  refine ⟨fun n => env (n + 1), ?_⟩
  rw [handleSkillByPath, huser]
  dsimp only
  rw [hslug, if_neg hne, getSkillBySlug, alone_query hstore, hnone, map_none]
  dsimp only
  split
  · rfl
  · rfl

theorem handleSkillByPath_hidden (huser : c.user = some u) (hrole : u.role ≠ "admin")
    (hslug : (pathParts r.path).headD "" = sk.slug) (hne : sk.slug ≠ "")
    (hstore : (env 0).storeErr = none) (hfound : db.skillBySlug sk.slug = some sk)
    (hvis : sk.visibility = "restricted")
    (hun : ∀ a ∈ db.assignments, a.skillID = sk.id → a.userID ≠ u.id) :
    ∃ env' outdated, (handleSkillByPath tools c r).alone env db =
      if r.method = "GET" then (db, skillNotFound)
      else (routeSkill tools c u r (some (sk, outdated)) (pathParts r.path)).alone env' db := by
  by_cases hget : r.method = "GET"
  · refine ⟨env, false, ?_⟩
    rw [if_pos hget, handleSkillByPath, huser]
    dsimp only
    rw [hslug, if_neg hne, getSkillBySlug, alone_query hstore, hfound, map_some]
    dsimp only
    rw [if_pos ⟨hget, hrole⟩]
    obtain ⟨env', hrun⟩ := userCanRead_false (fun n => env (n + 1))
      (k := fun can => if can = true then routeSkill tools c u r
        (some (sk, decide (sk.id ∈ db.outdated))) (pathParts r.path) else pure skillNotFound)
      hrole hvis hun
    exact hrun
  · refine ⟨fun n => env (n + 1), decide (sk.id ∈ db.outdated), ?_⟩
    rw [if_neg hget, handleSkillByPath, huser]
    dsimp only
    rw [hslug, if_neg hne, getSkillBySlug, alone_query hstore, hfound, map_some]
    dsimp only
    rw [if_neg fun h => hget h.1]

/-! ### The routes, for a caller without capabilities -/

theorem routeSkill_upload (hcap : ∀ cap, hasCapability c cap = false)
    (hup : isVersionUpload r = true) :
    ∃ resp, ∀ skill, routeSkill tools c u r skill (pathParts r.path) = pure resp := by
  simp only [isVersionUpload, Bool.and_eq_true, decide_eq_true_eq] at hup
  obtain ⟨⟨hmethod, hlen⟩, hsub⟩ := hup
  have hget : r.method ≠ "GET" := by simp [hmethod]
  generalize pathParts r.path = parts at hlen hsub
  -- three parts, four parts, or more
  match parts, hlen with
  | [slug, sub, arg], _ =>
    obtain rfl : sub = "versions" := some.inj hsub
    by_cases harg : arg = ""
    · exact ⟨_, fun skill => by rw [routeSkill, if_pos rfl, if_pos harg]⟩
    refine ⟨missingCapability "skills:publish", fun skill => ?_⟩
    rw [routeSkill, if_pos rfl, if_neg harg, if_neg hget, if_pos hmethod, requireCapability,
      hcap, if_neg (by decide)]
  | [slug, sub, arg, leaf], _ =>
    by_cases hleaf : sub ≠ "versions" ∨ leaf ≠ "archive"
    · exact ⟨_, fun skill => by rw [routeSkill, if_pos hleaf]⟩
    · exact ⟨_, fun skill => by rw [routeSkill, if_neg hleaf, if_pos hget]⟩
  | _ :: _ :: _ :: _ :: _ :: _, _ => exact ⟨_, fun skill => rfl⟩

theorem ne_skillNotFound {resp : Response} (h : resp.status ≠ 404) : resp ≠ skillNotFound := by
  rintro rfl
  exact h rfl

theorem routeSkill_refused (hrole : u.role ≠ "admin") (hcap : ∀ cap, hasCapability c cap = false)
    (hget : r.method ≠ "GET") (hup : isVersionUpload r = false) (skill : Option (Skill × Bool)) :
    ∃ resp, routeSkill tools c u r skill (pathParts r.path) = pure resp ∧ resp ≠ skillNotFound := by
  have hmissing : ∀ cap k, requireCapability c cap k = pure (missingCapability cap) := by
    intro cap k
    rw [requireCapability, hcap, if_neg (by decide)]
  have hadmin : ∀ k, requireAdmin u k = pure adminRequired := by
    intro k
    rw [requireAdmin, if_pos hrole]
  have hunknown : unknownSubresource ≠ skillNotFound := by decide
  unfold isVersionUpload at hup
  generalize pathParts r.path = parts at hup
  -- one case for each length of the path, in the order of the handler
  unfold routeSkill
  split
  · rw [if_neg hget]
    split
    · exact ⟨_, hmissing _ _, ne_skillNotFound (by decide)⟩
    split
    · exact ⟨_, hmissing _ _, ne_skillNotFound (by decide)⟩
    · exact ⟨_, rfl, by decide⟩
  · split
    · exact ⟨_, rfl, by decide⟩
    split
    · exact ⟨_, hadmin _, by decide⟩
    split
    · exact ⟨_, hadmin _, by decide⟩
    split
    · exact ⟨_, hmissing _ _, ne_skillNotFound (by decide)⟩
    · exact ⟨_, rfl, hunknown⟩
  · split
    · next hsub =>
      have hpost : r.method ≠ "POST" := by
        intro hpost
        simp [hpost, hsub] at hup
      split
      · exact ⟨_, rfl, by decide⟩
      split
      · exact ⟨_, hadmin _, by decide⟩
      · exact ⟨_, rfl, by decide⟩
    split
    · split
      · exact ⟨_, rfl, by decide⟩
      · exact ⟨_, hadmin _, by decide⟩
    · exact ⟨_, rfl, hunknown⟩
  · split
    · exact ⟨_, rfl, hunknown⟩
    · exact ⟨_, rfl, by decide⟩
  · exact ⟨_, rfl, hunknown⟩

end

/-- **The existence of a restricted skill is hidden exactly for `GET` and for uploads**: with
and without a restricted skill that is not assigned to the user, a user without capabilities
gets the same answer to a request below its slug if and only if the method is `GET`, the
request has the shape of an upload, or the database fails at the lookup. -/
theorem existence_hidden_iff (tools : Tools) (c : Caller) (u : UserRow) (r : Request)
    (env : ℕ → Env) (db : Database) (sk : Skill) (huser : c.user = some u)
    (hrole : u.role ≠ "admin") (hcaps : ∀ k, c.key = some k → k.capabilities = [])
    (hfound : db.skillBySlug sk.slug = some sk) (hne : sk.slug ≠ "")
    (hvis : sk.visibility = "restricted")
    (hun : ∀ a ∈ db.assignments, a.skillID = sk.id → a.userID ≠ u.id)
    (hpath : (pathParts r.path).head? = some sk.slug) :
    ((handleSkillByPath tools c r).alone env (db.without sk)).2 =
        ((handleSkillByPath tools c r).alone env db).2 ↔
      r.method = "GET" ∨ isVersionUpload r = true ∨ (env 0).storeErr ≠ none := by
  have hslug : (pathParts r.path).headD "" = sk.slug := by
    rw [List.headD_eq_head?_getD, hpath, getD_some]
  have hcap := hasCapability_false huser hrole hcaps
  cases hstore : (env 0).storeErr with
  | some err =>
    -- the lookup comes first, and its failure is reported in both databases
    simp only [ne_eq, reduceCtorEq, not_false_eq_true, or_true, iff_true]
    rw [handleSkillByPath, huser]
    dsimp only
    rw [hslug, if_neg hne, getSkillBySlug, alone_query_error hstore, alone_query_error hstore]
    rfl
  | none =>
    obtain ⟨env1, hmissing⟩ := handleSkillByPath_missing tools huser hslug hne hstore
      (skillBySlug_without db sk)
    obtain ⟨env2, outdated, hhidden⟩ := handleSkillByPath_hidden tools huser hrole hslug
      hne hstore hfound hvis hun
    rw [hmissing, hhidden]
    by_cases hget : r.method = "GET"
    · have hup : isVersionUpload r = false := by simp [isVersionUpload, hget]
      simp [hget, hup]
    rw [if_neg hget]
    cases hup : isVersionUpload r with
    | true =>
      obtain ⟨resp, hresp⟩ := routeSkill_upload tools (u := u) hcap hup
      rw [hresp, hresp]
      simp
    | false =>
      obtain ⟨resp, hresp, hother⟩ := routeSkill_refused tools hrole hcap hget hup
        (some (sk, outdated))
      rw [hresp]
      simpa [hget] using hother.symm

/-- A user who may read. -/
def reader : Caller where
  user := some ⟨"u1", "alice", "user", .read, none⟩
  key := some ⟨"k1", "u1", "hash", none, false, []⟩

/-- A restricted skill. -/
def secretSkill : Skill :=
  ⟨0, "secret", "Secret", "", "restricted", none, none, none, 0, 0⟩

/-- A restricted skill that is assigned to somebody else. -/
def secretRepo : Database where
  repo :=
    { skills := [secretSkill]
      nextID := 1 }
  assignments := [⟨0, "u2", none, "u0", 0⟩]

/-- No archive is acceptable. -/
def noArchives : Tools where
  sha256 _ := ""
  validateArchive _ := .error "not an archive"

/-- A request without a body. -/
def ask (method path : String) : Request where
  method := method
  path := path

theorem existence_hidden_iff_versions :
    ((handleSkillByPath noArchives reader (ask "GET" "/api/skills/secret/versions")).alone
        (fun _ => {}) (secretRepo.without secretSkill)).2 =
      ((handleSkillByPath noArchives reader (ask "GET" "/api/skills/secret/versions")).alone
        (fun _ => {}) secretRepo).2 := by
  refine (existence_hidden_iff noArchives reader ⟨"u1", "alice", "user", .read, none⟩
    (ask "GET" "/api/skills/secret/versions") (fun _ => {}) secretRepo secretSkill rfl
    ?role ?caps ?found ?slug rfl ?assigned ?path).mpr (Or.inl rfl)
  case role => decide
  case caps =>
    rintro k hk
    cases hk
    rfl
  case found => decide
  case slug => decide
  case assigned => decide
  case path => decide

/-- The same user sees from the answer to a `PATCH` whether the skill exists. -/
theorem existence_leaks :
    ((handleSkillByPath noArchives reader (ask "PATCH" "/api/skills/secret")).alone
        (fun _ => {}) (secretRepo.without secretSkill)).2 = skillNotFound ∧
      ((handleSkillByPath noArchives reader (ask "PATCH" "/api/skills/secret")).alone
        (fun _ => {}) secretRepo).2 = missingCapability "skills:publish" ∧
      (missingCapability "skills:publish").status = 403 ∧ skillNotFound.status = 404 := by
  decide

end ArcRelay.Skills.Api
