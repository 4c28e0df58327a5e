import ArcRelay.Skills.Configuration
import ArcRelay.Skills.Drift

/-!
# What checks compare with

A check compares with the commit and the hash that were seen last (`last_seen_sha` and
`last_seen_hash` in `internal/store/skills.go`).  An upload makes the hash of its archive the one
seen last and clears the report, if the skill has an upstream by then.  A report takes the hash
along, and a check without drift clears nothing.  So a change and its reversal are two changes,
though the upstream is again what was published.

* `Unmarked`: neither a mark nor a report.
* `check_unmarked_iff`: after a check that finds what was published, a skill is unmarked if and
  only if it was so before and the check finds no drift; and it stays so in a run of checks that
  find the hash seen last.
-/

namespace ArcRelay.Skills.Drift

open Interleave Prog Api List

/-- The skill is not marked, and has no report. -/
def Unmarked (id : ℕ) (db : Database) : Prop := id ∉ db.outdated ∧ db.report id = none

/-- Reports are not looked into here. -/
abbrev Anything : Finding → String × String → Prop := fun _ _ => True

/-- What the checker finds outside: a clone with a resolved commit. -/
def Fetches {κ : Type} [DecidableEq κ] (r : Commits κ) (clone : Clone κ) (new : String)
    (e : Env Anything) : Prop :=
  ∀ u, e.fetch u = r.detect clone (u.lastSeenSHA.getD "") (u.lastSeenHash.getD "") new

/-- A check of a skill, which reads its row first. -/
def checkRow (id : ℕ) (w : World) (e : Env Anything) : World :=
  match w.1.upstream id with
  | none => w
  | some u => ((checkOne u).alone (fun _ => e) w).1

variable {κ : Type} [DecidableEq κ] {id : ℕ} {w : World}
  {u : SkillUpstream} {det : Detection} {e : Env Anything} {r : Commits κ} {clone : Clone κ}
  {new published : String}

theorem checkOne_drift (hfetch : e.fetch u = .ok det) (hdrift : det.result = .drift)
    (hstore : e.api.storeErr = none)
    (hskill : (Table.find Skill.id u.skillID w.1.repo.skills).isSome = true) :
    u.skillID ∈ ((checkOne u).alone (fun _ => e) w).1.1.outdated := by
  obtain ⟨skill, hskill⟩ := Option.isSome_iff_exists.mp hskill
  rw [checkOne, fetchAndDetect, observe, alone_act_bind, hfetch]
  dsimp only
  rw [applyDetection, if_pos hdrift, noted, getSkill, Api.query, attempt, watch_act, alone_act_bind,
    hstore]
  dsimp only
  rw [hskill]
  dsimp only
  rw [observe, alone_act_bind, writeDriftReport, Api.writeDriftReport, Api.exec, attempt, watch_act,
    alone_act_bind, hstore]
  exact mem_cons_self

/-- The row after a check without drift, unless the statement fails. -/
theorem checkOne_same (w : World) (hfetch : ∀ det, e.fetch u = .ok det → det.result ≠ .drift) :
    let db' := ((checkOne u).alone (fun _ => e) w).1.1
    db'.outdated = w.1.outdated ∧ (db'.upstreams = w.1.upstreams ∨ ∃ sha, db'.upstreams =
      Table.modify SkillUpstream.skillID u.skillID (fun v => { v with
        lastSeenSHA := some sha
        lastSeenHash := some (u.lastSeenHash.getD "")
        lastCheckedAt := some e.api.now
        updatedAt := e.api.now }) w.1.upstreams) := by
  intro db'
  have hdb' : db' = ((checkOne u).alone (fun _ => e) w).1.1 := rfl
  rw [checkOne, fetchAndDetect, observe, alone_act_bind] at hdb'
  cases hdet : e.fetch u with
  | error err =>
    rw [hdet] at hdb'
    rw [hdb']
    exact ⟨rfl, .inl rfl⟩
  | ok det => ?_
  rw [hdet] at hdb'
  dsimp only at hdb'
  rw [applyDetection, if_neg (hfetch det hdet), noted, updateUpstreamCheck, Api.exec, attempt,
    watch_act, alone_act_bind] at hdb'
  rw [hdb']
  cases e.api.storeErr with
  | some err => exact ⟨rfl, .inl rfl⟩
  | none => exact ⟨rfl, .inr ⟨det.newSHA, rfl⟩⟩

theorem checkOne_same_report (hfetch : ∀ det, e.fetch u = .ok det → det.result ≠ .drift) :
    ((checkOne u).alone (fun _ => e) w).1.1.report id = w.1.report id := by
  obtain ⟨-, hsame | ⟨sha, hrows⟩⟩ := checkOne_same w hfetch
  · rw [Database.report, Database.upstream, hsame, Database.report, Database.upstream]
  · rw [report_modify hrows fun _ => rfl]
    split
    · next hid => rw [hid, Database.report]
    · rfl

/-- What `Detect` says if there is a tree of that hash. -/
theorem detect_ne_drift_iff {lastSeenSHA lastSeenHash : String}
    (hdet : r.detect clone lastSeenSHA lastSeenHash new = .ok det)
    (hobserved : clone.hash (r.contents new) = .ok published) :
    det.result ≠ .drift ↔ (lastSeenSHA ≠ "" ∧ new = lastSeenSHA) ∨
      (∃ c, r.Enters clone.subpath lastSeenSHA new c) ∨
      (lastSeenHash ≠ "" ∧ published = lastSeenHash) := by
  rw [← Commits.logPath_eq_nil_iff]
  unfold Commits.detect at hdet
  split at hdet
  · next hmoved =>
    cases hdet
    exact iff_of_true (by simp) (.inl hmoved)
  next hmoved =>
  split at hdet
  · cases hdet
  dsimp only at hdet
  split at hdet
  · next hnil =>
    cases hdet
    exact iff_of_true (by simp) (.inr (.inl hnil))
  next hlisted =>
  rw [hobserved] at hdet
  split at hdet
  · cases hdet
  · cases hdet
  next newHash _ hnew =>
  obtain rfl := Except.ok.inj hnew
  split at hdet
  · next hsame =>
    cases hdet
    exact iff_of_true (by simp) (.inr (.inr hsame))
  · next hother =>
    cases hdet
    exact iff_of_false (by simp) fun h => h.elim hmoved fun h => h.elim hlisted hother

/-- A skill that is unmarked and whose hash seen last is that of what was published. -/
structure Settled (published : String) (id : ℕ) (db : Database) : Prop where
  unmarked : Unmarked id db
  seen : ∀ u, db.upstream id = some u → u.lastSeenHash = some published

theorem Settled.check (h : Settled published id w.1) (hne : published ≠ "")
    (hfetch : Fetches r clone new e) (hobserved : clone.hash (r.contents new) = .ok published) :
    Settled published id (checkRow id w e).1 := by
  unfold checkRow
  cases hu : w.1.upstream id with
  | none => exact h
  | some u => ?_
  have hid : u.skillID = id := Table.key_of_find hu
  have hseen := h.seen u hu
  have hsame : ∀ det, e.fetch u = .ok det → det.result ≠ .drift := by
    intro det hdet
    rw [hfetch, hseen] at hdet
    exact (detect_ne_drift_iff hdet hobserved).mpr (.inr (.inr ⟨hne, rfl⟩))
  obtain ⟨houtdated, hrows⟩ := checkOne_same w hsame
  refine ⟨⟨?_, ?_⟩, fun v hv => ?_⟩
  · rw [houtdated]
    exact h.unmarked.1
  · rw [checkOne_same_report hsame]
    exact h.unmarked.2
  · rcases hrows with hrows | ⟨sha, hrows⟩
    · rw [Database.upstream, hrows] at hv
      exact h.seen v hv
    · rw [Database.upstream, hrows, Table.find_modify (by exact fun _ hv => hv),
        if_pos hid.symm] at hv
      obtain ⟨v', -, rfl⟩ := Option.map_eq_some_iff.mp hv
      rw [hseen]
      rfl

/-- **A skill in sync is not marked** after a check that gets through, if and only if it was not
marked before and the check finds no drift: the branch has not moved, the walk ends with nothing
listed, or the hash seen last is that of what was published.  In a run of checks of what was
published, completed or not, it stays unmarked once the hash seen last is that. -/
theorem check_unmarked_iff (r : Commits κ) (published : String) :
    (∀ (clone : Clone κ) (new : String) (e : Env Anything) (u : SkillUpstream) (w : World)
      (det : Detection), w.1.upstream u.skillID = some u →
      (Table.find Skill.id u.skillID w.1.repo.skills).isSome = true →
      e.api.storeErr = none → Fetches r clone new e → e.fetch u = .ok det →
      clone.hash (r.contents new) = .ok published →
      (Unmarked u.skillID (checkRow u.skillID w e).1 ↔ Unmarked u.skillID w.1 ∧
        ((u.lastSeenSHA.getD "" ≠ "" ∧ new = u.lastSeenSHA.getD "") ∨
          (∃ c, r.Enters clone.subpath (u.lastSeenSHA.getD "") new c) ∨
          (u.lastSeenHash.getD "" ≠ "" ∧ published = u.lastSeenHash.getD "")))) ∧
    ∀ (id : ℕ) (w : World) (checks : List (Env Anything)), published ≠ "" →
      Settled published id w.1 →
      (∀ e ∈ checks, ∃ clone new, Fetches r clone new e ∧
        clone.hash (r.contents new) = .ok published) →
      Unmarked id (checks.foldl (checkRow id) w).1 := by
  constructor
  · intro clone new e u w det hu hskill hstore hfetch hdet hobserved
    rw [checkRow, hu]
    have hdetect := hdet
    rw [hfetch] at hdetect
    rw [← detect_ne_drift_iff hdetect hobserved]
    by_cases hdrift : det.result = .drift
    · refine iff_of_false (fun h => h.1 ?_) fun h => h.2 hdrift
      exact checkOne_drift hdet hdrift hstore hskill
    · have hsame : ∀ det', e.fetch u = .ok det' → det'.result ≠ .drift := by
        intro det' hdet'
        obtain rfl := Except.ok.inj (hdet.symm.trans hdet')
        exact hdrift
      have houtdated := (checkOne_same w hsame).1
      rw [Unmarked, houtdated, checkOne_same_report hsame, ← Unmarked]
      exact ⟨fun h => ⟨h, hdrift⟩, fun h => h.1⟩
  · intro id w checks hne hsettled hchecks
    suffices h : Settled published id (checks.foldl (checkRow id) w).1 from h.unmarked
    induction checks generalizing w with
    | nil => exact hsettled
    | cons e checks ih => ?_
    obtain ⟨⟨clone, new, hfetch, hobserved⟩, hrest⟩ := forall_mem_cons.mp hchecks
    exact ih (checkRow id w e) (hsettled.check hne hfetch hobserved) hrest

/-! ### An upload and checks -/

/-- Three commits in a line; the second changes the subpath, and the third changes it back. -/
def takenBack : Commits String where
  parents sha := if sha = "c" then ["b"] else if sha = "b" then ["a"] else []
  age sha := if sha = "c" then 2 else if sha = "b" then 1 else 0
  older c p hp := by
    split at hp
    · simp_all
    split at hp <;> simp_all
  contents sha := if sha = "b" then "new" else "old"
  absent := ""

def checkOf (new : String) : Env Anything where
  fetch u := takenBack.detect wholeClone (u.lastSeenSHA.getD "") (u.lastSeenHash.getD "") new
  right _ _ _ _ := trivial

/-- A version is pushed whose archive has the tree of the first commit. -/
def pushed : World :=
  (((serve { demoRepo with subtreeHash := fun _ => .ok "old" } publisher (push "1.0.0")).alone
    (fun _ => {}) demoTracked).1, [])

theorem check_unmarked_iff_pushed : Settled "old" 0 pushed.1 ∧
    Unmarked 0 ([checkOf "a", checkOf "c"].foldl (checkRow 0) pushed).1 := by
  have hrow : (pushed.1.upstream 0).map SkillUpstream.lastSeenHash = some (some "old") := by
    decide +kernel
  have hsettled : Settled "old" 0 pushed.1 := by
    refine ⟨⟨by decide +kernel, by decide +kernel⟩, fun u hu => ?_⟩
    rw [hu] at hrow
    exact Option.some.inj hrow
  refine ⟨hsettled, (check_unmarked_iff takenBack "old").2 0 pushed _ (by decide) hsettled ?_⟩
  simp only [mem_cons, not_mem_nil, or_false, forall_eq_or_imp, forall_eq]
  exact ⟨⟨wholeClone, "a", fun _ => rfl, rfl⟩, ⟨wholeClone, "c", fun _ => rfl, rfl⟩⟩

/-- **A change is taken back**, and the skill stays marked, with a report. -/
theorem unmarked_not_reverted :
    let w := [checkOf "a", checkOf "b", checkOf "c"].foldl (checkRow 0) pushed
    wholeClone.hash (takenBack.contents "c") = .ok "old" ∧
      0 ∈ w.1.outdated ∧ (w.1.report 0).isSome = true :=
  ⟨rfl, by decide +kernel, by decide +kernel⟩

end ArcRelay.Skills.Drift
