import ArcRelay.Skills.Existence

/-!
# Who may read a skill

Two pieces of code decide which skills a user may see.  The listing is a join of the skills
with the assignments of the user, and a single skill is looked up first and then checked
against all its assignments, one by one.  Both come to one rule: the skill is not yanked, and
it is public or assigned to the user.  So a skill that the listing leaves out is reported as
missing when it is asked for, and no other one is.

* `read_acl_agrees`: the listing and the check of a single skill agree.
-/

namespace ArcRelay.Skills.Api

open Interleave Prog Access List

/-- What somebody who is no administrator may read. -/
structure Database.Readable (db : Database) (userID : String) (sk : Skill) : Prop where
  unyanked : sk.yankedAt = none
  granted : sk.visibility = "public" ∨ ∃ a ∈ db.assignments, a.skillID = sk.id ∧ a.userID = userID

/-- The path is that of the skill, of its versions, of a version that exists, or of the archive
of one. -/
def Database.Present (db : Database) (sk : Skill) : List String → Prop
  | [_] => True
  | [_, sub] => sub = "versions"
  | [_, sub, version] => sub = "versions" ∧ version ≠ "" ∧ (db.version sk.id version).isSome = true
  | [_, sub, version, leaf] =>
    sub = "versions" ∧ leaf = "archive" ∧ (db.version sk.id version).isSome = true
  | _ => False

section

variable {db : Database} {u : UserRow} {sk : Skill} {env : ℕ → Env} {userID : String} {α : Type}

/-! ### The two decisions -/

theorem assignment_isSome :
    (db.assignment sk.id userID).isSome = true ↔
      ∃ a ∈ db.assignments, a.skillID = sk.id ∧ a.userID = userID := by
  rw [Database.assignment, find?_isSome]
  simp only [decide_eq_true_eq]

/-- **The listing follows the rule.** -/
theorem mem_listForUser (hrole : u.role ≠ "admin") :
    sk ∈ (db.listForUser u).map Prod.fst ↔ sk ∈ db.repo.skills ∧ db.Readable u.id sk := by
  have hrows : (db.listForUser u).map Prod.fst =
      (db.repo.skills.filter fun sk => sk.yankedAt = none ∧
        (sk.visibility = "public" ∨ (db.assignment sk.id u.id).isSome)).mergeSort
          fun a b => a.slug ≤ b.slug := by
    rw [Database.listForUser, if_neg hrole, Database.assignedForUser]
    simp only [map_map, Function.comp_def, map_id']
  rw [hrows, mem_mergeSort, mem_filter, decide_eq_true_eq, assignment_isSome]
  constructor
  · rintro ⟨hmem, hyank, hgrant⟩
    exact ⟨hmem, hyank, hgrant⟩
  · rintro ⟨hmem, hyank, hgrant⟩
    exact ⟨hmem, hyank, hgrant⟩

theorem listAssignments_any :
    (db.listAssignments sk.id).any (fun a => a.userID = userID) = true ↔
      ∃ a ∈ db.assignments, a.skillID = sk.id ∧ a.userID = userID := by
  rw [any_eq_true]
  constructor
  · rintro ⟨a, ha, hid⟩
    rw [Database.listAssignments, mem_mergeSort, mem_filter] at ha
    exact ⟨a, ha.1, of_decide_eq_true ha.2, of_decide_eq_true hid⟩
  rintro ⟨a, ha, hskill, hid⟩
  refine ⟨a, ?_, decide_eq_true hid⟩
  rw [Database.listAssignments, mem_mergeSort, mem_filter]
  exact ⟨ha, decide_eq_true hskill⟩

/-- **The check of a single skill follows the rule**, when the assignments can be read. -/
theorem userCanRead_eq (db : Database) (sk : Skill) (hrole : u.role ≠ "admin")
    (henv : ∀ n, (env n).storeErr = none) (k : Bool → Run α) :
    ∃ can, (can = true ↔ db.Readable u.id sk) ∧ ∃ env', (∀ n, (env' n).storeErr = none) ∧
      (userCanRead u sk >>= k).alone env db = (k can).alone env' db := by
  unfold userCanRead
  rw [if_neg hrole]
  by_cases hyank : sk.yankedAt = none
  · rw [if_neg (not_not_intro hyank)]
    by_cases hpublic : sk.visibility = "public"
    · rw [if_pos hpublic]
      exact ⟨true, ⟨fun _ => ⟨hyank, Or.inl hpublic⟩, fun _ => rfl⟩, env, henv, rfl⟩
    rw [if_neg hpublic, bind_bind, alone_query (henv 0)]
    refine ⟨_, ⟨fun h => ?_, fun h => ?_⟩, _, fun n => henv (n + 1), rfl⟩
    · exact ⟨hyank, Or.inr (listAssignments_any.mp h)⟩
    · exact listAssignments_any.mpr (h.granted.resolve_left hpublic)
  · rw [if_pos hyank]
    exact ⟨false, ⟨fun h => absurd h Bool.false_ne_true, fun h => absurd h.unyanked hyank⟩, env,
      henv, rfl⟩

/-! ### The answers to `GET` -/

variable (tools : Tools) {r : Request}

theorem attachDrift_alone (db : Database) (sk : Skill) (outdated : Bool) (env : ℕ → Env)
    (k : SkillResp → Run α) :
    ∃ row env', (attachDrift sk outdated >>= k).alone env db = (k row).alone env' db := by
  cases outdated with
  | false => exact ⟨_, env, rfl⟩
  | true => ?_
  rw [attachDrift, if_pos rfl, bind_bind, getUpstream]
  cases hstore : (env 0).storeErr with
  | some err =>
    rw [alone_query_error hstore]
    exact ⟨_, _, rfl⟩
  | none =>
    rw [alone_query hstore]
    cases db.upstream sk.id with
    | none | some _ => exact ⟨_, _, rfl⟩

/-- Neither the skill nor what is there is reported as missing. -/
abbrev Finds (present : Prop) (a : Response) : Prop :=
  a ≠ skillNotFound ∧ (present → a.status ≠ 404)

theorem ok_ne_notFound : (200 : ℕ) ≠ 404 := by decide

theorem internalError_ne_skillNotFound : internalError ≠ skillNotFound := by decide

theorem versionNotFound_ne_skillNotFound :
    writeJSONError 404 "version not found" ≠ skillNotFound := by decide

theorem unknownSubresource_ne_skillNotFound : unknownSubresource ≠ skillNotFound := by decide

theorem adminRequired_ne_skillNotFound : adminRequired ≠ skillNotFound := by decide

variable (henv : ∀ n, (env n).storeErr = none) (db : Database) (sk : Skill)

include henv

theorem getSkill_status (outdated : Bool) :
    ((getSkill sk outdated).alone env db).2.status = 200 := by
  rw [getSkill, alone_query (henv 0)]
  obtain ⟨row, env', hrow⟩ := attachDrift_alone db sk outdated
    (fun n => env (n + 1)) fun row => pure (Response.mk 200 (.skill row (db.listVersions sk.id)))
  exact congrArg (fun run => run.2.status) hrow

theorem listVersions_status : ((listVersions sk).alone env db).2.status = 200 := by
  rw [listVersions, alone_query (henv 0)]
  rfl

theorem getVersion_answer (version : String) :
    Finds (db.version sk.id version).isSome ((getVersion sk version).alone env db).2 := by
  rw [getVersion, alone_query (henv 0)]
  cases db.version sk.id version with
  | none => exact ⟨versionNotFound_ne_skillNotFound, fun h => absurd h Bool.false_ne_true⟩
  | some v => exact ⟨ne_skillNotFound ok_ne_notFound, fun _ => ok_ne_notFound⟩

theorem downloadArchive_answer (version : String) :
    Finds (db.version sk.id version).isSome ((downloadArchive sk version).alone env db).2 := by
  rw [downloadArchive, alone_query (henv 0)]
  cases db.version sk.id version with
  | none => exact ⟨versionNotFound_ne_skillNotFound, fun h => absurd h Bool.false_ne_true⟩
  | some v => ?_
  dsimp only
  rw [Prog.get, alone_act_bind]
  -- a file that is gone is an internal error
  cases db.repo.files.lookup v.archivePath with
  | none => exact ⟨internalError_ne_skillNotFound, fun _ => show (500 : ℕ) ≠ 404 by decide⟩
  | some archive => exact ⟨ne_skillNotFound ok_ne_notFound, fun _ => ok_ne_notFound⟩

theorem routeSkill_answer (c : Caller) (outdated : Bool)
    (parts : List String) (hget : r.method = "GET") (hrole : u.role ≠ "admin") :
    Finds (db.Present sk parts)
      ((routeSkill tools c u r (some (sk, outdated)) parts).alone env db).2 := by
  -- one case for each length of the path, in the order of the handler
  unfold routeSkill
  split
  · rw [if_pos hget]
    have hok := getSkill_status henv db sk outdated
    exact ⟨ne_skillNotFound (by rw [withSkill, Option.any_some, hok]; decide),
      fun _ => by rw [withSkill, Option.any_some, hok]; decide⟩
  · split
    · rw [if_neg (not_not_intro hget)]
      have hok := listVersions_status henv db sk
      exact ⟨ne_skillNotFound (by rw [withSkill, hok]; decide),
        fun _ => by rw [withSkill, hok]; decide⟩
    next hsub =>
    refine ⟨?_, fun h => absurd h hsub⟩
    split
    · rw [requireAdmin, if_pos hrole]
      exact adminRequired_ne_skillNotFound
    split
    · rw [requireAdmin, if_pos hrole]
      exact adminRequired_ne_skillNotFound
    split
    · rw [requireCapability]
      split
      · rw [withSkill, handleUpstream, if_neg (by simp [hget]), if_neg (by simp [hget])]
        exact ne_skillNotFound (show (405 : ℕ) ≠ 404 by decide)
      · exact ne_skillNotFound (show (403 : ℕ) ≠ 404 by decide)
    · exact unknownSubresource_ne_skillNotFound
  · split
    · split
      · next harg =>
        exact ⟨ne_skillNotFound (show (400 : ℕ) ≠ 404 by decide), fun h => absurd harg h.2.1⟩
      · obtain ⟨hfound, hstatus⟩ := getVersion_answer henv db sk _
        exact ⟨hfound, fun h => hstatus h.2.2⟩
    next hsub =>
    refine ⟨?_, fun h => absurd h.1 hsub⟩
    split
    · split
      · exact ne_skillNotFound (show (400 : ℕ) ≠ 404 by decide)
      rw [requireAdmin, if_pos hrole]
      exact adminRequired_ne_skillNotFound
    · exact unknownSubresource_ne_skillNotFound
  · split
    · next hsub =>
      refine ⟨unknownSubresource_ne_skillNotFound, fun h => ?_⟩
      exact absurd h.2.1 (hsub.resolve_left (not_not_intro h.1))
    rw [if_neg (not_not_intro hget), withSkill]
    obtain ⟨hfound, hstatus⟩ := downloadArchive_answer henv db sk _
    exact ⟨hfound, fun h => hstatus h.2.2⟩
  · next hone htwo hthree hfour =>
    refine ⟨unknownSubresource_ne_skillNotFound, fun h => ?_⟩
    unfold Database.Present at h
    split at h
    · exact absurd rfl (hone _)
    · exact absurd rfl (htwo _ _)
    · exact absurd rfl (hthree _ _ _)
    · exact absurd rfl (hfour _ _ _ _)
    · exact h.elim

end

/-- **The listing and the check of a single skill agree.**  For every database and every user
who is no administrator, a skill is listed if and only if the user may read it.  So `GET` below
its slug is answered with 404 and `skill not found` if and only if the listing leaves the skill
out; of what exists below the skill, it is the only answer with 404. -/
theorem read_acl_agrees (tools : Tools) (c : Caller) (u : UserRow) (db : Database)
    (env : ℕ → Env) (huser : c.user = some u) (hrole : u.role ≠ "admin")
    (hslugs : (db.repo.skills.map Skill.slug).Nodup) (henv : ∀ n, (env n).storeErr = none)
    (sk : Skill) (hsk : sk ∈ db.repo.skills) :
    (((userCanRead u sk).alone env db).2 = true ↔ sk ∈ (db.listForUser u).map Prod.fst) ∧
      ∀ r : Request, r.method = "GET" → (pathParts r.path).head? = some sk.slug → sk.slug ≠ "" →
        (((handleSkillByPath tools c r).alone env db).2 = skillNotFound ↔
          sk ∉ (db.listForUser u).map Prod.fst) ∧
        (db.Present sk (pathParts r.path) →
          (((handleSkillByPath tools c r).alone env db).2.status = 404 ↔
            sk ∉ (db.listForUser u).map Prod.fst)) := by
  have hlisted : sk ∈ (db.listForUser u).map Prod.fst ↔ db.Readable u.id sk := by
    rw [mem_listForUser hrole]
    exact and_iff_right hsk
  refine ⟨?_, fun r hget hpath hne => ?_⟩
  · obtain ⟨can, hcan, env', -, hrun⟩ := userCanRead_eq db sk hrole henv
      (fun can => (pure can : Run Bool))
    rw [bind_pure] at hrun
    rw [hrun, hlisted]
    exact hcan
  have hslug : (pathParts r.path).headD "" = sk.slug := by
    rw [headD_eq_head?_getD, hpath, Option.getD_some]
  have hfound : db.skillBySlug sk.slug = some sk := Table.find_of_mem hslugs hsk
  rw [handleSkillByPath, huser]
  dsimp only
  rw [hslug, if_neg hne, getSkillBySlug, alone_query (henv 0), hfound, Option.map_some]
  dsimp only
  rw [if_pos ⟨hget, hrole⟩]
  obtain ⟨can, hcan, env', henv', hrun⟩ := userCanRead_eq db sk hrole
    (fun n => henv (n + 1)) fun can => if can = true then routeSkill tools c u r
      (some (sk, decide (sk.id ∈ db.outdated))) (pathParts r.path) else pure skillNotFound
  rw [hrun, hlisted, ← hcan]
  cases can with
  | false => simp [skillNotFound, writeJSONError]
  | true => ?_
  obtain ⟨hother, hstatus⟩ := routeSkill_answer tools henv' db sk c
    (decide (sk.id ∈ db.outdated)) (pathParts r.path) hget hrole
  rw [if_pos rfl]
  simp only [not_true_eq_false, iff_false]
  exact ⟨hother, hstatus⟩

def twoSkills : Database where
  repo :=
    { skills := [secretSkill, ⟨1, "open", "Open", "", "public", none, none, none, 0, 0⟩]
      nextID := 2 }

theorem read_acl_agrees_secret :
    secretSkill ∉ (twoSkills.listForUser ⟨"u1", "alice", "user", .read, none⟩).map Prod.fst ∧
      ((handleSkillByPath noArchives reader (ask "GET" "/api/skills/secret/versions")).alone
        (fun _ => {}) twoSkills).2 = skillNotFound := by
  have hmissing : secretSkill ∉
      (twoSkills.listForUser ⟨"u1", "alice", "user", .read, none⟩).map Prod.fst := by
    rw [mem_listForUser (by decide)]
    rintro ⟨-, h⟩
    rcases h.granted with hpublic | ⟨a, ha, -⟩
    · exact absurd hpublic (by decide)
    · cases ha
  obtain ⟨-, hget⟩ := read_acl_agrees noArchives reader ⟨"u1", "alice", "user", .read, none⟩
    twoSkills (fun _ => {}) rfl (by decide) (by decide) (fun _ => rfl) secretSkill (by decide)
  refine ⟨hmissing, ?_⟩
  exact (hget (ask "GET" "/api/skills/secret/versions") rfl (by decide) (by decide)).1.mpr hmissing

end ArcRelay.Skills.Api
