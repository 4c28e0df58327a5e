import ArcRelay.Skills.Api
import ArcRelay.Skills.Detect

/-!
# Checks for drift, and what happens meanwhile

The checker (`internal/skills/checker/cron.go`) reads the upstream of a skill, fetches it and
looks for changes, has them classified, and writes a report, which also marks the skill as
outdated.  Between the reading and the writing there are minutes in which uploads clear the
report, and the upstream can be replaced or removed.

The mark should be there exactly when there is a report, and the report should be about the
URL and the subpath of the row it stands in.  Two things break this.  A check writes its report
whatever has become of the row: if the row is gone the skill stays marked without a report, and
if it has another URL the report is about the old one.  And a row that gets another URL keeps
the report it has.

Beside the database there is a history of just these two things: a report is written, and a row
with a source gets another one.  If each report has found the source it was made for, and no row
with a report got another source, mark and report are consistent.

* `Consistent`, `Orderly`: the promise, and the condition on a history.
* `outdated_consistent`, `outdated_orphan`: the theorem, and histories without the condition.
-/

namespace ArcRelay.Skills.Drift

open Interleave Api List

/-! ### What a check finds -/

structure Verdict where
  severity : String
  summary : String
  recommendedAction : String
  llmModel : String

def fallbackRecommendedAction : String := "Review upstream commits manually before pulling."

def fallbackTriple (det : Detection) : Verdict where
  severity := "unknown"
  summary := toString det.commitsAhead ++ " commits modified " ++
    toString det.changedFiles.length ++ " files. See diff summary for details."
  recommendedAction := fallbackRecommendedAction
  llmModel := ""

def classify (llm : Option Verdict) (skill : Skill) (det : Detection) (relayHash : String)
    (now : ℤ) : DriftReport :=
  let verdict := llm.getD (fallbackTriple det)
  { detectedAt := now
    relayVersion := skill.latestVersion.getD ""
    relayHash := relayHash
    upstreamSHA := det.newSHA
    upstreamHash := det.newHash
    commitsAhead := det.commitsAhead
    severity := verdict.severity
    summary := verdict.summary
    recommendedAction := verdict.recommendedAction
    llmModel := verdict.llmModel }

/-- A commit, the hash of a directory in it, and the number of commits up to it. -/
abbrev Finding := String × String × ℕ

def Detection.finding (det : Detection) : Finding := (det.newSHA, det.newHash, det.commitsAhead)

end ArcRelay.Skills.Drift

namespace ArcRelay.Skills.Api

def DriftReport.finding (r : DriftReport) : Drift.Finding :=
  (r.upstreamSHA, r.upstreamHash, r.commitsAhead)

def SkillUpstream.place (u : SkillUpstream) : String × String := (u.gitURL, u.gitSubpath)

def Database.report (db : Database) (id : ℕ) : Option DriftReport :=
  (db.upstream id).bind SkillUpstream.drift

end ArcRelay.Skills.Api

namespace ArcRelay.Skills.Drift

open Interleave Prog Api

/-! ### The history -/

inductive Entry where
  /-- A report on `read` is written, and `found` is what the row had by then. -/
  | reported (id : ℕ) (read : String × String) (found : Option (String × String))
  /-- The row gets another URL or subpath. -/
  | redirected (id : ℕ) (hadReport : Bool)
  deriving DecidableEq

abbrev World := Database × List Entry

section

-- which findings describe which URL and subpath
variable (Describes : Finding → String × String → Prop)

structure Env where
  api : Api.Env := {}
  /-- `EnsureCache` and `Detect`. -/
  fetch : SkillUpstream → Except String Detection
  /-- A drift that is found describes what was fetched. -/
  right : ∀ u det, fetch u = .ok det → det.result = .drift → Describes det.finding u.place
  /-- The hash of the published archive, or nothing. -/
  relayHash : String := ""
  llm : Option Verdict := none

abbrev Run := Prog World (Env Describes)

variable {Describes}

def redirections (db db' : Database) : List Entry :=
  db'.upstreams.filterMap fun u' =>
    ((db.upstream u'.skillID).filter fun u => u.place ≠ u'.place).map fun u =>
      .redirected u'.skillID u.drift.isSome

def noted {α : Type} (p : Api.Run α) : Run Describes α :=
  p.watch (fun db _ db' => redirections db db') Env.api

def writeDriftReport (u : SkillUpstream) (report : DriftReport) :
    Run Describes (Except String Unit) :=
  (Api.writeDriftReport u.skillID report).watch
    (fun db e _ =>
      if e.api.storeErr = none then
        [.reported u.skillID u.place ((db.upstream u.skillID).map SkillUpstream.place)]
      else [])
    Env.api

/-! ### The checker -/

inductive CheckOutcome where
  | upToDate
  | drift
  | noUpstream
  | fetchFailed

def fetchAndDetect (u : SkillUpstream) : Run Describes (Except String Detection × ℤ) :=
  observe fun e => (e.fetch u, e.api.now)

def getSkill (id : ℕ) : Api.Run (Except String (Option Skill)) :=
  Api.query fun db => Table.find Skill.id id db.repo.skills

def applyDetection (u : SkillUpstream) (det : Detection) (now : ℤ) :
    Run Describes (Except String CheckOutcome) := do
  if det.result = .drift then
    match ← noted (getSkill u.skillID) with
    | .error err => pure (.error ("get skill for classify: " ++ err))
    | .ok none => pure (.error ("skill " ++ toString u.skillID ++ " vanished mid-check"))
    | .ok (some skill) =>
      let report ← observe fun e : Env Describes => classify e.llm skill det e.relayHash now
      match ← writeDriftReport u report with
      | .error err => pure (.error ("write drift report: " ++ err))
      | .ok () => pure (.ok .drift)
  else
    match ← noted (updateUpstreamCheck u.skillID det.newSHA (u.lastSeenHash.getD "")) with
    | .error err => pure (.error ("update upstream check: " ++ err))
    | .ok () => pure (.ok .upToDate)

/-- `checkOne`, which has the branches of `applyDetection` written out once more. -/
def checkOne (u : SkillUpstream) : Run Describes (Except String CheckOutcome) := do
  match ← fetchAndDetect u with
  | (.error err, _) => pure (.error err)
  | (.ok det, now) => applyDetection u det now

/-- Rows that were never checked come first, then those that were checked longest ago. -/
def checkedBefore (u v : SkillUpstream) : Bool :=
  match u.lastCheckedAt, v.lastCheckedAt with
  | none, some _ => true
  | some _, none => false
  | none, none => u.skillID ≤ v.skillID
  | some s, some t => s < t ∨ s = t ∧ u.skillID ≤ v.skillID

def listUpstreams : Api.Run (Except String (List SkillUpstream)) :=
  Api.query fun db => db.upstreams.mergeSort checkedBefore

/-- Errors on one upstream do not end the cycle. -/
def checkAll : List SkillUpstream → Run Describes Unit
  | [] => pure ()
  | u :: rest => do
    let _ ← checkOne u
    checkAll rest

def runOnce : Run Describes Unit := do
  match ← noted listUpstreams with
  | .error _ => pure ()
  | .ok upstreams => checkAll upstreams

def runOneSlug (slug : String) : Run Describes (Except String CheckOutcome) := do
  match ← noted (getSkillBySlug slug) with
  | .error err => pure (.error ("get skill: " ++ err))
  | .ok none => pure (.error "skill not found")
  | .ok (some (skill, _)) =>
    match ← noted (getUpstream skill.id) with
    | .error err => pure (.error ("get upstream: " ++ err))
    | .ok none => pure (.ok .noUpstream)
    | .ok (some u) =>
      match ← fetchAndDetect u with
      | (.error _, _) => pure (.ok .fetchFailed)
      | (.ok det, now) => applyDetection u det now

/-! ### Who runs -/

inductive Client where
  | cycle
  | check (slug : String)
  | upload (tools : Api.Tools) (c : Caller) (user : Access.UserRow) (r : Request)
      (slug version : String)
  /-- The upstream is set or removed, through the API. -/
  | upstream (r : Request) (skill : Skill)
  /-- The same through the dashboard. -/
  | upsertUpstream (id : ℕ) (type url subpath ref : String)
  | clearUpstream (id : ℕ)
  | delete (user : Access.UserRow) (r : Request) (skill : Skill)

def Client.program : Client → Run Describes Unit
  | cycle => runOnce
  | check slug => do let _ ← runOneSlug slug
  | upload tools c user r slug version => do
    let _ ← noted (uploadVersion tools c user r slug version)
  | upstream r skill => do let _ ← noted (handleUpstream r skill)
  | upsertUpstream id type url subpath ref => do
    let _ ← noted (upsertUpstreamRow id type url subpath ref)
  | clearUpstream id => do let _ ← noted (clearUpstreamRow id)
  | delete user r skill => do let _ ← noted (deleteSkill user r skill)

/-! ### What is to hold -/

variable {id k : ℕ} {db db' : Database} {u : SkillUpstream} {r : DriftReport}

variable (Describes) in
/-- The skill is marked exactly when there is a report, and the report describes the URL and
the subpath of its row. -/
structure Consistent (id : ℕ) (db : Database) : Prop where
  marked : id ∈ db.outdated ↔ (db.report id).isSome
  described : ∀ u r, db.upstream id = some u → u.drift = some r → Describes r.finding u.place

/-- Reports on the skill found the URL and the subpath they were made for, and a row that got
others had no report. -/
structure Orderly (id : ℕ) (log : List Entry) : Prop where
  reported : ∀ read found, .reported id read found ∈ log → found = some read
  redirected : ∀ hadReport, .redirected id hadReport ∈ log → hadReport = false

theorem Orderly.of_append {new log : List Entry} (h : Orderly id (new ++ log)) :
    Orderly id log where
  reported read found hmem := h.reported read found (List.mem_append_right new hmem)
  redirected hadReport hmem := h.redirected hadReport (List.mem_append_right new hmem)

theorem mem_redirections {u' : SkillUpstream} (h : db.upstream id = some u)
    (h' : db'.upstream id = some u') (hne : u.place ≠ u'.place) :
    .redirected id u.drift.isSome ∈ redirections db db' := by
  have hid : u'.skillID = id := Table.key_of_find h'
  refine List.mem_filterMap.mpr ⟨u', Table.mem_of_find h', ?_⟩
  rw [hid, h, Option.filter_some, if_pos (by simpa using hne)]
  rfl

def Steady (id : ℕ) (db db' : Database) : Prop :=
  ((id ∈ db'.outdated ↔ id ∈ db.outdated) ∧ db'.report id = db.report id) ∨
    (id ∉ db'.outdated ∧ db'.report id = none)

theorem Steady.refl (id : ℕ) (db : Database) : Steady id db db := .inl ⟨Iff.rfl, rfl⟩

theorem report_eq_some : db.report id = some r ↔ ∃ u, db.upstream id = some u ∧ u.drift = some r :=
  Option.bind_eq_some_iff

theorem Consistent.steady (h : Consistent Describes id db) (hs : Steady id db db')
    (hred : ∀ hadReport, .redirected id hadReport ∈ redirections db db' → hadReport = false) :
    Consistent Describes id db' := by
  obtain ⟨hmark, hreport⟩ | ⟨hmark, hreport⟩ := hs
  · refine ⟨by rw [hmark, hreport, h.marked], fun u' r hu' hr => ?_⟩
    have hdb : db.report id = some r := hreport ▸ report_eq_some.mpr ⟨u', hu', hr⟩
    obtain ⟨u, hu, hur⟩ := report_eq_some.mp hdb
    have hplace : u.place = u'.place := by
      by_contra hne
      have hnone := hred _ (mem_redirections hu hu' hne)
      rw [hur] at hnone
      cases hnone
    rw [← hplace]
    exact h.described u r hu hur
  · refine ⟨by rw [hreport]; exact ⟨fun hm => absurd hm hmark, nofun⟩, fun u r hu hr => ?_⟩
    rw [report_eq_some.mpr ⟨u, hu, hr⟩] at hreport
    cases hreport

variable (Describes) in
def Inv (id : ℕ) (w : World) : Prop := Orderly id w.2 → Consistent Describes id w.1

variable (Describes) in
def Keeps (id : ℕ) (w w' : World) : Prop := Inv Describes id w → Inv Describes id w'

theorem noted_keeps {α : Type} {p : Api.Run α} (hp : p.Within (Steady id)) :
    (noted p : Run Describes α).Within (Keeps Describes id) := by
  refine hp.watch fun db db' e log hs hinv hord => ?_
  refine (hinv hord.of_append).steady hs fun hadReport hmem => ?_
  exact hord.redirected hadReport (List.mem_append_left log hmem)

/-! ### The store -/

theorem steady_query {α : Type} (f : Database → α) : (query f).Within (Steady id) :=
  within_attempt (Steady.refl id) fun db _ => Steady.refl id db

theorem report_modify {f : SkillUpstream → SkillUpstream}
    (h : db'.upstreams = Table.modify SkillUpstream.skillID k f db.upstreams)
    (hid : ∀ u, (f u).skillID = u.skillID) :
    db'.report id = if id = k then (db.upstream k).bind fun u => (f u).drift else db.report id := by
  rw [Database.report, Database.upstream, h, Table.find_modify fun u hu => (hid u).trans hu]
  split
  · exact Option.bind_map
  · rfl

theorem report_delete (h : db'.upstreams = Table.delete SkillUpstream.skillID k db.upstreams) :
    db'.report id = if id = k then none else db.report id := by
  rw [Database.report, Database.upstream, h, Table.find_delete]
  split <;> rfl

theorem mem_unmarked {l : List ℕ} (hk : id ≠ k) : id ∈ l.filter (· ≠ k) ↔ id ∈ l := by
  simp [hk]

theorem not_mem_unmarked {l : List ℕ} : id ∉ l.filter (· ≠ id) := by simp

theorem Steady.delete
    (hrows : db'.upstreams = Table.delete SkillUpstream.skillID k db.upstreams)
    (hmarks : db'.outdated = db.outdated.filter (· ≠ k)) : Steady id db db' := by
  rw [Steady, report_delete hrows, hmarks]
  by_cases hk : id = k
  · subst hk
    exact .inr ⟨not_mem_unmarked, if_pos rfl⟩
  · exact .inl ⟨mem_unmarked hk, if_neg hk⟩

theorem steady_clearUpstreamRow (k : ℕ) : (clearUpstreamRow k).Within (Steady id) :=
  within_attempt (Steady.refl id) fun _ _ => Steady.delete rfl rfl

theorem steady_deleteSkillRow (k : ℕ) : (deleteSkillRow k).Within (Steady id) :=
  within_attempt (Steady.refl id) fun _ _ => Steady.delete rfl rfl

theorem steady_clearDriftReport (k : ℕ) (hash : String) :
    (clearDriftReport k hash).Within (Steady id) := by
  refine within_attempt (Steady.refl id) fun db e => ?_
  rw [Steady, report_modify rfl (by exact fun _ => rfl)]
  by_cases hk : id = k
  · subst hk
    rw [if_pos rfl, Option.bind_fun_none]
    exact .inr ⟨not_mem_unmarked, rfl⟩
  · rw [if_neg hk]
    exact .inl ⟨mem_unmarked hk, rfl⟩

theorem steady_updateUpstreamCheck (k : ℕ) (sha hash : String) :
    (updateUpstreamCheck k sha hash).Within (Steady id) := by
  refine within_attempt (Steady.refl id) fun db e => .inl ⟨Iff.rfl, ?_⟩
  rw [report_modify rfl (by exact fun _ => rfl)]
  split
  · next hk => rw [hk]; rfl
  · rfl

theorem steady_upsertUpstreamRow (k : ℕ) (type url subpath ref : String) :
    (upsertUpstreamRow k type url subpath ref).Within (Steady id) := by
  unfold upsertUpstreamRow
  generalize (if type = "" then "git" else type) = type, (if ref = "" then "HEAD" else ref) = ref
  cases validateGitURL url with
  | error err => exact within_pure _
  | ok _ => ?_
  refine within_act.mpr fun db e => ?_
  split
  · exact Steady.refl id db
  split
  · exact Steady.refl id db
  split
  · exact Steady.refl id db
  refine .inl ⟨Iff.rfl, ?_⟩
  rw [Database.report, Database.report, Database.upstream, Database.upstream,
    Table.find_upsert (by exact fun u hu => hu)]
  split
  · cases Table.find SkillUpstream.skillID id db.upstreams with
    | none | some _ => rfl
  · rfl

/-! ### The requests -/

theorem steady_uploadToRepo (tools : Api.Tools) (input : UploadInput) :
    (uploadToRepo tools input).Within (Steady id) :=
  (within_true _).focus fun _ _ _ => .inl ⟨Iff.rfl, rfl⟩

theorem steady_applyUpstreamHeaders (r : Request) (k : ℕ) :
    (applyUpstreamHeaders r k).Within (Steady id) := by
  unfold applyUpstreamHeaders
  split
  · exact (steady_clearUpstreamRow k).bind fun _ => within_pure _
  split
  · split
    · exact within_pure _
    split
    · refine (steady_upsertUpstreamRow k _ _ _ _).bind fun res => ?_
      split <;> exact within_pure _
    · exact within_pure _
  · exact within_pure _

theorem steady_uploadVersion (tools : Api.Tools) (c : Caller) (user : Access.UserRow)
    (r : Request) (slug version : String) :
    (uploadVersion tools c user r slug version).Within (Steady id) := by
  unfold uploadVersion
  split
  · exact within_pure _
  split
  · exact within_pure _
  split
  · exact within_pure _
  refine (steady_uploadToRepo tools _).bindOk (fun _ => within_pure _) fun v => ?_
  refine (steady_applyUpstreamHeaders r v.skillID).bind fun recorded => ?_
  refine (steady_query _).bind fun u => ?_
  split
  · exact (steady_clearDriftReport v.skillID _).bind fun _ => within_pure _
  · exact within_pure _

theorem steady_upsertUpstream (r : Request) (skill : Skill) :
    (Api.upsertUpstream r skill).Within (Steady id) := by
  unfold Api.upsertUpstream
  split
  · exact within_pure _
  split
  · exact within_pure _
  split
  · exact within_pure _
  split
  · exact within_pure _
  split
  · exact within_pure _
  split
  · exact within_pure _
  refine (steady_upsertUpstreamRow skill.id _ _ _ _).bind fun res => ?_
  split
  · exact within_pure _
  refine (steady_query _).bind fun u => ?_
  split <;> exact within_pure _

theorem steady_handleUpstream (r : Request) (skill : Skill) :
    (handleUpstream r skill).Within (Steady id) := by
  unfold handleUpstream
  split
  · exact steady_upsertUpstream r skill
  split
  · refine (steady_clearUpstreamRow skill.id).bind fun res => ?_
    split <;> exact within_pure _
  · exact within_pure _

theorem steady_deleteSkill (user : Access.UserRow) (r : Request) (skill : Skill) :
    (deleteSkill user r skill).Within (Steady id) := by
  unfold deleteSkill
  split
  · split
    · exact within_pure _
    refine (steady_deleteSkillRow skill.id).bind fun res => ?_
    split <;> exact within_pure _
  have hyank : (yankSkill skill.id).Within (Steady id) :=
    within_attempt (Steady.refl id) fun _ _ => .inl ⟨Iff.rfl, rfl⟩
  refine hyank.bind fun res => ?_
  split <;> exact within_pure _

/-! ### The checks -/

theorem Consistent.report {now : ℤ}
    (h : Consistent Describes id db)
    (hrows : db'.upstreams = Table.modify SkillUpstream.skillID u.skillID
      (fun v => { v with
        drift := some r
        lastSeenSHA := some r.upstreamSHA
        lastSeenHash := some r.upstreamHash
        lastCheckedAt := some r.detectedAt
        updatedAt := now })
      db.upstreams)
    (hmarks : db'.outdated = u.skillID :: db.outdated.filter (· ≠ u.skillID))
    (hfound : u.skillID = id → (db.upstream id).map SkillUpstream.place = some u.place)
    (hr : Describes r.finding u.place) : Consistent Describes id db' := by
  have hrow : db'.upstream id = if id = u.skillID then (db.upstream u.skillID).map (fun v =>
      { v with
        drift := some r
        lastSeenSHA := some r.upstreamSHA
        lastSeenHash := some r.upstreamHash
        lastCheckedAt := some r.detectedAt
        updatedAt := now })
      else db.upstream id := by
    rw [Database.upstream, hrows]
    exact Table.find_modify fun _ hv => hv
  by_cases hid : id = u.skillID
  · -- the row has been found, and now has the report
    subst hid
    obtain ⟨v, hv, hplace⟩ := Option.map_eq_some_iff.mp (hfound rfl)
    rw [if_pos rfl, hv, Option.map_some] at hrow
    refine ⟨?_, fun u' r' hu' hr' => ?_⟩
    · rw [Database.report, hrow, hmarks]
      exact ⟨fun _ => rfl, fun _ => List.mem_cons_self⟩
    obtain rfl := Option.some.inj (hrow.symm.trans hu')
    cases hr'
    exact hplace ▸ hr
  · rw [if_neg hid] at hrow
    refine ⟨?_, fun u' r' hu' hr' => h.described u' r' (hrow ▸ hu') hr'⟩
    rw [Database.report, hrow, hmarks, List.mem_cons, or_iff_right hid, mem_unmarked hid]
    exact h.marked

theorem keeps_writeDriftReport (hr : Describes r.finding u.place) :
    (writeDriftReport u r : Run Describes _).Within (Keeps Describes id) := by
  rw [writeDriftReport, Api.writeDriftReport, Api.exec, attempt, watch_act]
  refine within_act.mpr fun w e hinv hord => ?_
  have hlog := hinv hord.of_append
  cases herr : e.api.storeErr with
  | some err => exact hlog
  | none => ?_
  refine hlog.report rfl rfl (fun hid => ?_) hr
  subst hid
  refine hord.reported u.place _ (List.mem_append_left _ ?_)
  rw [if_pos herr]
  exact List.mem_singleton.mpr rfl

theorem keeps_applyDetection {det : Detection} (now : ℤ)
    (hdet : det.result = .drift → Describes det.finding u.place) :
    (applyDetection u det now : Run Describes _).Within (Keeps Describes id) := by
  unfold applyDetection
  split
  · next hdrift =>
    refine (noted_keeps (steady_query _)).bind fun found => ?_
    split
    · exact within_pure _
    · exact within_pure _
    next skill =>
    have hobs : (observe fun e : Env Describes =>
        classify e.llm skill det e.relayHash now : Run Describes _).Within
          (Keeps Describes id) := within_act.mpr fun _ _ h => h
    refine hobs.bind_returns (P := fun r => Describes r.finding u.place) ?_ fun r hr => ?_
    · exact returns_act.mpr fun _ _ => hdet hdrift
    refine (keeps_writeDriftReport hr).bind fun res => ?_
    split <;> exact within_pure _
  · refine (noted_keeps (steady_updateUpstreamCheck _ _ _)).bind fun res => ?_
    split <;> exact within_pure _

theorem keeps_fetchAndDetect (u : SkillUpstream)
    {k : Except String Detection × ℤ → Run Describes (Except String CheckOutcome)}
    (hok : ∀ det now, (det.result = .drift → Describes det.finding u.place) →
      (k (.ok det, now)).Within (Keeps Describes id))
    (herr : ∀ err now, (k (.error err, now)).Within (Keeps Describes id)) :
    (fetchAndDetect u >>= k).Within (Keeps Describes id) := by
  refine Within.bind_returns (P := fun res => ∀ det, res.1 = .ok det →
    det.result = .drift → Describes det.finding u.place) ?_ ?_ ?_
  · exact within_act.mpr fun _ _ h => h
  · exact returns_act.mpr fun _ e det hdet => e.right u det hdet
  rintro ⟨res, now⟩ hres
  cases res with
  | error err => exact herr err now
  | ok det => exact hok det now (hres det rfl)

theorem keeps_checkOne (u : SkillUpstream) :
    (checkOne u : Run Describes _).Within (Keeps Describes id) :=
  keeps_fetchAndDetect u (fun _ now hdet => keeps_applyDetection now hdet) fun _ _ => within_pure _

theorem keeps_checkAll (us : List SkillUpstream) :
    (checkAll us : Run Describes _).Within (Keeps Describes id) := by
  induction us with
  | nil => exact within_pure _
  | cons u rest ih => exact (keeps_checkOne u).bind fun _ => ih

theorem keeps_runOnce : (runOnce : Run Describes _).Within (Keeps Describes id) := by
  exact (noted_keeps (steady_query _)).bindOk (fun _ => within_pure _) fun us => keeps_checkAll us

theorem keeps_runOneSlug (slug : String) :
    (runOneSlug slug : Run Describes _).Within (Keeps Describes id) := by
  refine (noted_keeps (steady_query _)).bind fun res => ?_
  split
  · exact within_pure _
  · exact within_pure _
  refine (noted_keeps (steady_query _)).bind fun res => ?_
  split
  · exact within_pure _
  · exact within_pure _
  exact keeps_fetchAndDetect _ (fun _ now hdet => keeps_applyDetection now hdet)
    fun _ _ => within_pure _

theorem Client.keeps (c : Client) :
    (c.program : Run Describes Unit).Within (Keeps Describes id) := by
  cases c with
  | cycle => exact keeps_runOnce
  | check slug => exact (keeps_runOneSlug slug).bind fun _ => within_pure _
  | upload tools c user r slug version =>
    exact (noted_keeps (steady_uploadVersion tools c user r slug version)).bind
      fun _ => within_pure _
  | upstream r skill =>
    exact (noted_keeps (steady_handleUpstream r skill)).bind fun _ => within_pure _
  | upsertUpstream k type url subpath ref =>
    exact (noted_keeps (steady_upsertUpstreamRow k type url subpath ref)).bind
      fun _ => within_pure _
  | clearUpstream k => exact (noted_keeps (steady_clearUpstreamRow k)).bind fun _ => within_pure _
  | delete user r skill =>
    exact (noted_keeps (steady_deleteSkill user r skill)).bind fun _ => within_pure _

/-! ### Every interleaving -/

variable (Describes) in
def run (db : Database) (clients : List Client) (sched : List (Event Empty (Env Describes))) :
    World :=
  ((Pool.mk (db, []) (clients.map Client.program)).exec nofun sched).state

theorem inv_run (hdb : Consistent Describes id db)
    (clients : List Client) (sched : List (Event Empty (Env Describes))) :
    Inv Describes id (run Describes db clients sched) := by
  have hall : Pool.AllSafe (Inv Describes id) (fun _ _ _ => True) (fun _ _ _ => True)
      (fun _ _ _ => True)
      (Pool.mk (db, []) (clients.map Client.program) : Pool World (Env Describes) Unit) := by
    refine ⟨fun _ => hdb, fun i p hp => ?_⟩
    obtain ⟨c, -, rfl⟩ := List.mem_map.mp (List.mem_of_getElem? hp)
    exact c.keeps.safe (fun _ _ hinv hkeeps => ⟨hkeeps hinv, trivial⟩) _
  exact (Pool.exec_safe (fun _ _ => trivial) (fun _ _ _ _ _ _ => trivial)
    (fun _ _ _ _ _ _ _ => trivial) nofun hall sched).inv

/-- **Mark, report and row agree after every orderly history.** -/
theorem outdated_consistent (id : ℕ) (db : Database) (hdb : Consistent Describes id db)
    (clients : List Client) (sched : List (Event Empty (Env Describes)))
    (hord : Orderly id (run Describes db clients sched).2) :
    Consistent Describes id (run Describes db clients sched).1 :=
  inv_run hdb clients sched hord

end

/-! ### Histories that are not orderly -/

def Named (f : Finding) (place : String × String) : Prop := f.1 = place.1

def moved : Env Named where
  fetch u := .ok { result := .drift, newSHA := u.gitURL, commitsAhead := 1 }
  right _ _ hdet _ := Except.ok.inj hdet ▸ rfl

def tracked : Database where
  repo := { skills := [⟨1, "demo", "Demo", "", "public", some "1.0.0", none, none, 0, 0⟩] }
  upstreams := [{ skillID := 1, upstreamType := "git", gitURL := "https://a", gitSubpath := ""
                  gitRef := "HEAD", createdAt := 0, updatedAt := 0 }]

theorem tracked_consistent : Consistent Named 1 tracked where
  marked := by decide
  described u r hu hr := by
    obtain rfl : _ = u := Option.some.inj hu
    cases hr

def replaced : World :=
  run Named tracked [.check "demo", .upsertUpstream 1 "git" "https://b" "" ""]
    (.run 1 moved :: List.replicate 6 (.run 0 moved))

theorem replaced_orderly : Orderly 1 replaced.2 := by
  have hlog : replaced.2 =
      [.reported 1 ("https://b", "") (some ("https://b", "")), .redirected 1 false] := by
    decide +kernel
  rw [hlog]
  refine ⟨fun read found hmem => ?_, fun hadReport hmem => by simpa using hmem⟩
  have hentry : ("https://b", "") = read ∧ some ("https://b", "") = found := by
    simpa [eq_comm] using hmem
  rw [← hentry.1, ← hentry.2]

theorem outdated_consistent_replaced : Orderly 1 replaced.2 ∧ Consistent Named 1 replaced.1 :=
  ⟨replaced_orderly, outdated_consistent 1 tracked tracked_consistent _ _ replaced_orderly⟩

def removed : Database :=
  (run Named tracked [.check "demo", .clearUpstream 1]
    ([.run 0 moved, .run 0 moved, .run 1 moved] ++ List.replicate 4 (.run 0 moved))).1

def repointed : Database :=
  (run Named tracked [.check "demo", .upsertUpstream 1 "git" "https://b" "" ""]
    (List.replicate 6 (.run 0 moved) ++ [.run 1 moved])).1

/-- **Other histories leave a mark without a report, or a report on another URL.** -/
theorem outdated_orphan :
    Consistent Named 1 tracked ∧ (1 ∈ removed.outdated ∧ removed.upstream 1 = none) ∧
      (repointed.upstream 1).map SkillUpstream.place = some ("https://b", "") ∧
        (repointed.report 1).map DriftReport.upstreamSHA = some "https://a" :=
  ⟨tracked_consistent, by decide +kernel, by decide +kernel⟩

end ArcRelay.Skills.Drift
