import ArcRelay.Lib.History
import ArcRelay.Skills.Upload

/-!
# Published versions

A published version should never change: the file of each row should be the one that was
uploaded with it, and an upload that fails should leave no trace on what is there.  Two
things stand against it.  The file is put in place before the row is tried, so an upload
of a version that exists replaces its archive and only then fails; and the name and
description are refreshed first of all, so a failure after that leaves them changed.

`versions_immutable` says that these are the only ways: it holds in every run in which
each file is put where no row points and no other upload is on its way to one, and no
upload fails after it has changed the name or description of its skill.
`version_replaced` shows the first way.

* `Intact`, `Unchanged`, `Undisturbed`: what should hold, and the condition on a run.
-/

namespace ArcRelay.Skills

open Interleave Prog Json List Table Entry

/-! ### What should hold -/

def Intact (tools : Tools) (s : State) : Prop :=
  ∀ v ∈ s.versions, ∃ i archive, .published i v.archivePath archive ∈ s.log ∧
    s.files.lookup v.archivePath = some archive ∧ v.archiveSize = archive.length ∧
    v.archiveSHA256 = tools.sha256 archive

/-- The skills, the versions and their archives are as they were; there may be one more
skill, and files to which no row points. -/
structure Unchanged (s s' : State) : Prop where
  skills : s.skills <+: s'.skills
  versions : s'.versions = s.versions
  archives : ∀ v ∈ s.versions, s'.files.lookup v.archivePath = s.files.lookup v.archivePath

/-- The upload has changed no name or description, no archive of a version, and no row, by
its own record. -/
structure Untouched (log : List Entry) (i : ℕ) : Prop where
  titles : .retitled i ∉ log
  archives : ∀ path archive, .wrote i path archive true ∉ log
  rows : ∀ path archive, .published i path archive ∉ log

def Ended (log : List Entry) (i : ℕ) : Prop :=
  (∃ path archive, .published i path archive ∈ log) ∨ .conflicted i ∈ log ∨ .failed i ∈ log

/-- Each file is put in place when no row points to it and every other upload that has put
one there is over. -/
def Exclusive : List Entry → Prop
  | [] => True
  | .wrote _ path _ replaced :: log =>
    replaced = false ∧ (∀ j archive r, .wrote j path archive r ∈ log → Ended log j) ∧ Exclusive log
  | _ :: log => Exclusive log

/-- The condition on a run: files are put in place exclusively, and no upload that has
changed a name or description fails afterwards. -/
structure Undisturbed (log : List Entry) : Prop where
  exclusive : Exclusive log
  settled : ∀ i, .retitled i ∈ log → .failed i ∉ log

variable {log log' : List Entry} {i id : ℕ} {s s' : State} {e : Entry} {a b : List Skill}
  {tools : Tools} {path : ArchivePath} {f : Skill → Skill}

theorem Exclusive.tail (h : Exclusive (e :: log)) : Exclusive log := by
  cases e with
  | wrote i path archive replaced => exact h.2.2
  | retitled _ | published _ _ _ | conflicted _ | failed _ => exact h

theorem Exclusive.suffix (h : Exclusive log') (hl : log <:+ log') : Exclusive log :=
  History.suffix_of_tail (fun _ _ => Exclusive.tail) h hl

theorem Undisturbed.suffix (h : Undisturbed log') (hl : log <:+ log') : Undisturbed log :=
  ⟨h.exclusive.suffix hl, fun i hi hfail => h.settled i (hl.subset hi) (hl.subset hfail)⟩

theorem Ended.mono (h : Ended log i) (hl : log ⊆ log') : Ended log' i := by
  rcases h with ⟨path, archive, h⟩ | h | h
  · exact .inl ⟨path, archive, hl h⟩
  · exact .inr (.inl (hl h))
  · exact .inr (.inr (hl h))

theorem Exclusive.replaced (h : Exclusive log) {archive : Bytes} {replaced : Bool}
    (hmem : .wrote i path archive replaced ∈ log) : replaced = false := by
  obtain ⟨front, back, rfl⟩ := append_of_mem hmem
  exact (h.suffix (suffix_append _ _)).1

/-! ### The invariant -/

structure Inv (tools : Tools) (s : State) : Prop where
  ids : (s.skills.map Skill.id).Nodup
  fresh : ∀ sk ∈ s.skills, sk.id < s.nextID
  rows : ∀ v ∈ s.versions, ∃ sk ∈ s.skills, sk.id = v.skillID ∧ v.archivePath = (sk.slug, v.version)
  intact : Exclusive s.log → Intact tools s
  /-- An upload on its way to its row has its file in place, and no row points there. -/
  held : Exclusive s.log → ∀ i path archive r, .wrote i path archive r ∈ s.log →
    ¬ Ended s.log i → s.files.lookup path = some archive ∧ ∀ v ∈ s.versions, v.archivePath ≠ path
  alone : Exclusive s.log → ∀ i j path a b r r', .wrote i path a r ∈ s.log →
    .wrote j path b r' ∈ s.log → ¬ Ended s.log i → ¬ Ended s.log j → i = j

def Present (skill : Skill) (skills : List Skill) : Prop :=
  ∃ sk ∈ skills, sk.id = skill.id ∧ sk.slug = skill.slug

def Persist (skills skills' : List Skill) : Prop := ∀ sk ∈ skills, Present sk skills'

theorem Persist.refl (skills : List Skill) : Persist skills skills :=
  fun sk hsk => ⟨sk, hsk, rfl, rfl⟩

theorem Present.persist {skill : Skill} (h : Present skill a) (hab : Persist a b) :
    Present skill b := by
  obtain ⟨sk, hsk, hid, hslug⟩ := h
  obtain ⟨sk', hsk', hid', hslug'⟩ := hab sk hsk
  exact ⟨sk', hsk', hid'.trans hid, hslug'.trans hslug⟩

theorem Persist.trans {c : List Skill} (hab : Persist a b) (hbc : Persist b c) : Persist a c :=
  fun sk hsk => (hab sk hsk).persist hbc

theorem persist_modify (skills : List Skill)
    (hf : ∀ sk, (f sk).id = sk.id ∧ (f sk).slug = sk.slug) :
    Persist skills (Table.modify Skill.id id f skills) := by
  intro sk hsk
  refine ⟨if sk.id = id then f sk else sk, mem_map.mpr ⟨sk, hsk, rfl⟩, ?_⟩
  split
  · exact hf sk
  · exact ⟨rfl, rfl⟩

variable {archive : Bytes} {skills : List Skill} {r : Bool} {v : SkillVersion}

theorem Inv.update (h : Inv tools s) {s' : State} (hids : (s'.skills.map Skill.id).Nodup)
    (hfresh : ∀ sk ∈ s'.skills, sk.id < s'.nextID) (hskills : Persist s.skills s'.skills)
    (hversions : ∀ v' ∈ s'.versions, ∃ v ∈ s.versions, v'.skillID = v.skillID ∧
      v'.version = v.version ∧ v'.archivePath = v.archivePath ∧ v'.archiveSize = v.archiveSize ∧
      v'.archiveSHA256 = v.archiveSHA256)
    (hfiles : s'.files = s.files) (hlog : s.log <:+ s'.log)
    (hwrote : ∀ i path archive r, .wrote i path archive r ∈ s'.log →
      .wrote i path archive r ∈ s.log) : Inv tools s' := by
  have hopen : ∀ {i}, ¬ Ended s'.log i → ¬ Ended s.log i :=
    fun hi hend => hi (hend.mono hlog.subset)
  refine ⟨hids, hfresh, ?_, ?_, ?_, ?_⟩
  · intro v' hv'
    obtain ⟨v, hv, hid, hversion, hpath, -, -⟩ := hversions v' hv'
    obtain ⟨sk, hsk, hskid, hskpath⟩ := h.rows v hv
    obtain ⟨sk', hsk', hid', hslug⟩ := hskills sk hsk
    refine ⟨sk', hsk', (hid'.trans hskid).trans hid.symm, ?_⟩
    rw [hpath, hskpath, hslug, hversion]
  · intro hex v' hv'
    obtain ⟨v, hv, -, -, hpath, hsize, hsha⟩ := hversions v' hv'
    obtain ⟨i, archive, hpub, hfile, hlen, hsum⟩ := h.intact (hex.suffix hlog) v hv
    rw [hpath, hsize, hsha, hfiles]
    exact ⟨i, archive, hlog.subset hpub, hfile, hlen, hsum⟩
  · intro hex i path archive r hw hi
    obtain ⟨hfile, hrow⟩ :=
      h.held (hex.suffix hlog) i path archive r (hwrote _ _ _ _ hw) (hopen hi)
    refine ⟨hfiles ▸ hfile, fun v' hv' => ?_⟩
    obtain ⟨v, hv, -, -, hpath, -, -⟩ := hversions v' hv'
    rw [hpath]
    exact hrow v hv
  · intro hex i j path a b r r' hwi hwj hi hj
    exact h.alone (hex.suffix hlog) i j path a b r r' (hwrote _ _ _ _ hwi) (hwrote _ _ _ _ hwj)
      (hopen hi) (hopen hj)

theorem Inv.note (h : Inv tools s) (he : ∀ i path archive r, e ≠ .wrote i path archive r) :
    Inv tools { s with log := e :: s.log } :=
  h.update h.ids h.fresh (Persist.refl _) (fun v hv => ⟨v, hv, rfl, rfl, rfl, rfl, rfl⟩) rfl
    (suffix_cons _ _) fun i path archive r hw =>
      mem_of_ne_of_mem (he i path archive r).symm hw

theorem lookup_put {q : ArchivePath} (files : List (ArchivePath × Bytes)) :
    ((path, archive) :: files.filter fun f => f.1 ≠ path).lookup q =
      if q = path then some archive else files.lookup q := by
  by_cases hq : q = path
  · simp [hq]
  rw [List.lookup_cons, if_neg hq, beq_false_of_ne hq]
  induction files with
  | nil => rfl
  | cons f files ih => ?_
  obtain ⟨p, b⟩ := f
  by_cases hp : p = path
  · have hqp : (q == p) = false := beq_false_of_ne fun he => hq (he.trans hp)
    simpa [filter_cons, hp, List.lookup_cons, hp ▸ hqp] using ih
  simp only [filter_cons, ne_eq, hp, not_false_eq_true, decide_true, if_true,
    List.lookup_cons] at ih ⊢
  rw [ih]

theorem Inv.write (h : Inv tools s) (i : ℕ) (path : ArchivePath) (archive : Bytes) :
    Inv tools { s with
      files := (path, archive) :: s.files.filter (fun f => f.1 ≠ path)
      log := .wrote i path archive (s.versions.any fun v => v.archivePath = path) :: s.log } := by
  have hrows : (s.versions.any fun v => v.archivePath = path) = false →
      ∀ v ∈ s.versions, v.archivePath ≠ path := by
    intro hany v hv
    simpa using any_eq_false.mp hany v hv
  have hopen : ∀ {e j}, ¬ Ended (e :: s.log) j → ¬ Ended s.log j :=
    fun hj hend => hj (hend.mono (subset_cons_self _ _))
  refine ⟨h.ids, h.fresh, h.rows, ?_, ?_, ?_⟩
  · -- no row points to the path, so the files of the rows stay
    rintro ⟨hrep, -, hex⟩ v hv
    obtain ⟨j, b, hpub, hfile, hlen, hsum⟩ := h.intact hex v hv
    refine ⟨j, b, mem_cons_of_mem _ hpub, ?_, hlen, hsum⟩
    rw [lookup_put, if_neg (hrows hrep v hv)]
    exact hfile
  · rintro ⟨hrep, hothers, hex⟩ j q b r hw hj
    rw [lookup_put]
    rcases mem_cons.mp hw with hnew | hold
    · obtain ⟨rfl, rfl, rfl, -⟩ := wrote.inj hnew
      exact ⟨if_pos rfl, hrows hrep⟩
    -- another upload that is on its way has put its file elsewhere
    have hne : q ≠ path := by
      rintro rfl
      exact hopen hj (hothers j b r hold)
    rw [if_neg hne]
    exact h.held hex j q b r hold (hopen hj)
  · rintro ⟨-, hothers, hex⟩ j k q a b r r' hwj hwk hj hk
    rcases mem_cons.mp hwj with hnew | hold
    · obtain ⟨rfl, rfl, -, -⟩ := wrote.inj hnew
      rcases mem_cons.mp hwk with hnew' | hold'
      · exact (wrote.inj hnew').1.symm
      · exact absurd (hothers k b r' hold') (hopen hk)
    rcases mem_cons.mp hwk with hnew' | hold'
    · obtain ⟨rfl, rfl, -, -⟩ := wrote.inj hnew'
      exact absurd (hothers j a r hold) (hopen hj)
    · exact h.alone hex j k q a b r r' hold hold' (hopen hj) (hopen hk)

theorem Inv.fresh_of_ids (h : Inv tools s) (hids : skills.map Skill.id = s.skills.map Skill.id) :
    ∀ sk ∈ skills, sk.id < s.nextID := by
  intro sk hsk
  have hmem : sk.id ∈ s.skills.map Skill.id := hids ▸ mem_map_of_mem hsk
  obtain ⟨sk', hsk', hid⟩ := mem_map.mp hmem
  exact hid ▸ h.fresh sk' hsk'

theorem Inv.publish (h : Inv tools s) (hwrote : .wrote i v.archivePath archive r ∈ s.log)
    (hopen : ¬ Ended s.log i) (hids : skills.map Skill.id = s.skills.map Skill.id)
    (hskills : Persist s.skills skills)
    (hrow : ∃ sk ∈ s.skills, sk.id = v.skillID ∧ v.archivePath = (sk.slug, v.version))
    (hsize : v.archiveSize = archive.length) (hsha : v.archiveSHA256 = tools.sha256 archive) :
    Inv tools { s with
      versions := s.versions ++ [v]
      skills := skills
      log := .published i v.archivePath archive :: s.log } := by
  have hold : ∀ {j}, ¬ Ended (.published i v.archivePath archive :: s.log) j → ¬ Ended s.log j :=
    fun hj hend => hj (hend.mono (subset_cons_self _ _))
  refine ⟨hids ▸ h.ids, h.fresh_of_ids hids, ?_, ?_, ?_, ?_⟩
  · intro w hw
    have hw' : ∃ sk ∈ s.skills, sk.id = w.skillID ∧ w.archivePath = (sk.slug, w.version) := by
      rcases mem_append.mp hw with hw | hw
      · exact h.rows w hw
      obtain rfl := mem_singleton.mp hw
      exact hrow
    obtain ⟨sk, hsk, hid, hpath⟩ := hw'
    obtain ⟨sk', hsk', hid', hslug⟩ := hskills sk hsk
    exact ⟨sk', hsk', hid'.trans hid, hslug ▸ hpath⟩
  · intro hex w hw
    rcases mem_append.mp hw with hw | hw
    · obtain ⟨j, b, hpub, hrest⟩ := h.intact hex w hw
      exact ⟨j, b, mem_cons_of_mem _ hpub, hrest⟩
    · obtain rfl := mem_singleton.mp hw
      exact ⟨i, archive, mem_cons_self, (h.held hex i _ _ _ hwrote hopen).1, hsize, hsha⟩
  · intro hex j path b r' hw hj
    have hw' := mem_of_ne_of_mem (by simp) hw
    obtain ⟨hfile, hrows⟩ := h.held hex j path b r' hw' (hold hj)
    refine ⟨hfile, fun w hmem => ?_⟩
    rcases mem_append.mp hmem with hmem | hmem
    · exact hrows w hmem
    obtain rfl := mem_singleton.mp hmem
    rintro rfl
    -- the other one on its way to this file is this upload, which is over now
    obtain rfl := h.alone hex i j _ _ _ _ _ hwrote hw' hopen (hold hj)
    exact hj (.inl ⟨_, _, mem_cons_self⟩)
  · intro hex j k path a b r1 r2 hwj hwk hj hk
    exact h.alone hex j k path a b r1 r2 (mem_of_ne_of_mem (by simp) hwj)
      (mem_of_ne_of_mem (by simp) hwk) (hold hj) (hold hk)

theorem Inv.no_conflict (h : Inv tools s) (hex : Exclusive s.log) {skill : Skill}
    {version : String} (hwrote : .wrote i (skill.slug, version) archive r ∈ s.log)
    (hopen : ¬ Ended s.log i) (hskill : Present skill s.skills) :
    ∀ w ∈ s.versions, ¬ (w.skillID = skill.id ∧ w.version = version) := by
  rintro w hw ⟨hid, rfl⟩
  obtain ⟨sk, hsk, hskid, hpath⟩ := h.rows w hw
  obtain ⟨sk', hsk', hid', hslug⟩ := hskill
  have hsame : sk = sk' := by
    have hfind := find_of_mem h.ids hsk
    rw [hskid, hid, ← hid', find_of_mem h.ids hsk'] at hfind
    exact (Option.some.inj hfind).symm
  refine (h.held hex i _ _ _ hwrote hopen).2 w hw ?_
  rw [hpath, hsame, hslug]

/-! ### One upload among others -/

def Entry.upload : Entry → ℕ
  | .retitled i | .wrote i _ _ _ | .published i _ _ | .conflicted i | .failed i => i

abbrev own (i : ℕ) (log : List Entry) : List Entry := History.own Entry.upload i log

theorem ended_congr (h : own i log' = own i log) : Ended log' i ↔ Ended log i := by
  unfold Ended
  rw [History.mem_congr h (e := .conflicted i) rfl, History.mem_congr h (e := .failed i) rfl]
  simp only [History.mem_congr h (e := .published i _ _) rfl]

theorem Untouched.congr (h : own i log' = own i log) (hu : Untouched log i) : Untouched log' i :=
  ⟨fun hmem => hu.titles ((History.mem_congr h rfl).mp hmem),
    fun path archive hmem => hu.archives path archive ((History.mem_congr h rfl).mp hmem),
    fun path archive hmem => hu.rows path archive ((History.mem_congr h rfl).mp hmem)⟩

theorem Untouched.suffix (hu : Untouched log' i) (hl : log <:+ log') : Untouched log i :=
  ⟨fun hmem => hu.titles (hl.subset hmem), fun _ _ hmem => hu.archives _ _ (hl.subset hmem),
    fun _ _ hmem => hu.rows _ _ (hl.subset hmem)⟩

theorem not_ended_of_own (h : own i log = []) : ¬ Ended log i := by
  have hno : ∀ e ∈ log, e.upload ≠ i := by
    intro e he hi
    have : e ∈ own i log := History.mem_own.mpr ⟨he, hi⟩
    simp [h] at this
  rintro (⟨path, archive, hmem⟩ | hmem | hmem) <;> exact hno _ hmem rfl

theorem not_ended_cons (h : ¬ Ended log i) (he : ¬ Ended [e] i) : ¬ Ended (e :: log) i := by
  have hold : ∀ e' ∈ e :: log, e' ∉ [e] → e' ∈ log := by
    intro e' hmem hne
    exact (mem_cons.mp hmem).resolve_left fun heq => hne (mem_singleton.mpr heq)
  rintro (⟨path, archive, hmem⟩ | hmem | hmem)
  · exact h (.inl ⟨path, archive, hold _ hmem fun h' => he (.inl ⟨path, archive, h'⟩)⟩)
  · exact h (.inr (.inl (hold _ hmem fun h' => he (.inr (.inl h')))))
  · exact h (.inr (.inr (hold _ hmem fun h' => he (.inr (.inr h')))))

theorem untouched_of_own (h : own i log = []) : Untouched log i := by
  have hnil : Untouched [] i := ⟨by simp, by simp, by simp⟩
  exact hnil.congr (show own i log = own i [] from h)

theorem untouched_of_failed (hrun : Undisturbed (.failed i :: log)) (hopen : ¬ Ended log i) :
    Untouched (.failed i :: log) i := by
  refine ⟨fun hmem => hrun.settled i hmem mem_cons_self, fun path archive hmem => ?_,
    fun path archive hmem => ?_⟩
  · exact absurd (hrun.exclusive.replaced hmem) (by simp)
  · exact hopen (.inl ⟨path, archive, mem_of_ne_of_mem (by simp) hmem⟩)

structure Rely (i : ℕ) (s s' : State) : Prop where
  log : s.log <:+ s'.log
  own : own i s'.log = own i s.log
  skills : Persist s.skills s'.skills

structure Guar (i : ℕ) (s s' : State) : Prop where
  log : s.log <:+ s'.log
  others : ∀ j, j ≠ i → own j s'.log = own j s.log
  skills : Persist s.skills s'.skills
  recorded : Untouched s'.log i → Unchanged s s'

theorem Unchanged.refl (s : State) : Unchanged s s := ⟨prefix_rfl, rfl, fun _ _ => rfl⟩

theorem Rely.refl (i : ℕ) (s : State) : Rely i s s :=
  ⟨suffix_refl _, rfl, Persist.refl _⟩

theorem Rely.trans {a b c : State} (hab : Rely i a b) (hbc : Rely i b c) : Rely i a c :=
  ⟨hab.log.trans hbc.log, hbc.own.trans hab.own, hab.skills.trans hbc.skills⟩

theorem Guar.refl (i : ℕ) (s : State) : Guar i s s :=
  ⟨suffix_refl _, fun _ _ => rfl, Persist.refl _, fun _ => Unchanged.refl s⟩

theorem Guar.step (e : Entry) (he : e.upload = i) (hlog : s'.log = e :: s.log)
    (hskills : Persist s.skills s'.skills) (hrec : Untouched s'.log i → Unchanged s s') :
    Guar i s s' := by
  refine ⟨hlog ▸ suffix_cons _ _, fun j hj => ?_, hskills, hrec⟩
  rw [hlog]
  exact History.own_cons (he ▸ hj.symm)

theorem Guar.note (e : Entry) (he : e.upload = i) (s : State) :
    Guar i s { s with log := e :: s.log } :=
  Guar.step e he rfl (Persist.refl _) fun _ => ⟨prefix_rfl, rfl, fun _ _ => rfl⟩

theorem Guar.write (i : ℕ) (path : ArchivePath) (archive : Bytes) (s : State) :
    Guar i s { s with
      files := (path, archive) :: s.files.filter (fun f => f.1 ≠ path)
      log := .wrote i path archive (s.versions.any fun v => v.archivePath = path) :: s.log } := by
  refine Guar.step (.wrote i path archive _) rfl rfl (Persist.refl _) fun hu => ?_
  refine ⟨prefix_rfl, rfl, fun v hv => ?_⟩
  have hne : v.archivePath ≠ path := by
    intro hpath
    have hany : (s.versions.any fun v => v.archivePath = path) = true :=
      any_eq_true.mpr ⟨v, hv, decide_eq_true hpath⟩
    rw [hany] at hu
    exact hu.archives path archive mem_cons_self
  rw [lookup_put, if_neg hne]

def Harmless {α : Type} (i : ℕ) (r : Except UploadError α) (s : State) : Prop :=
  Undisturbed s.log → ∀ err, r = .error err → Untouched s.log i

theorem Harmless.rely {α : Type} {r : Except UploadError α} (h : Harmless i r s)
    (hR : Rely i s s') : Harmless i r s' :=
  fun hrun err hr => (h (hrun.suffix hR.log) err hr).congr hR.own

def Ensured (i : ℕ) (r : Except UploadError Skill) (s : State) : Prop :=
  match r with
  | .error _ => own i s.log = []
  | .ok skill => ¬ Ended s.log i ∧ Present skill s.skills

theorem Ensured.rely {r : Except UploadError Skill} (h : Ensured i r s) (hR : Rely i s s') :
    Ensured i r s' := by
  cases r with
  | error err => exact hR.own.trans h
  | ok skill => exact ⟨(ended_congr hR.own).not.mpr h.1, h.2.persist hR.skills⟩

variable {input : UploadInput} {manifest : Manifest} {slug : String} {skill : Skill}

theorem createSkill_safe (hown : own i s.log = []) :
    (createSkill input manifest slug).Safe (Inv tools) (Rely i) (Guar i) (Ensured i) s := by
  unfold createSkill
  extract_lets visibility
  split
  · exact fun s' hR _ => hR.own.trans hown
  refine safe_act.mpr fun s' hR hI e => ?_
  have hown' := hR.own.trans hown
  have herr : ∀ err t, Rely i s' t → Ensured i (.error err) t := fun err t ht => ht.own.trans hown'
  cases e.storeErr with
  | some err => exact ⟨hI, Guar.refl i s', fun t ht _ => herr _ t ht⟩
  | none => ?_
  dsimp only
  split
  · exact ⟨hI, Guar.refl i s', fun t ht _ => herr _ t ht⟩
  have hnew : ∀ sk : Skill, Persist s'.skills (s'.skills ++ [sk]) := fun sk old hold =>
    ⟨old, mem_append_left _ hold, rfl, rfl⟩
  refine ⟨?_, ⟨suffix_refl _, fun _ _ => rfl, hnew _, ?_⟩, fun t ht _ => ?_⟩
  · refine hI.update (nodup_append_row hI.ids ?_) ?_ (hnew _)
      (fun v hv => ⟨v, hv, rfl, rfl, rfl, rfl, rfl⟩) rfl (suffix_refl _)
      fun _ _ _ _ hw => hw
    · exact find_eq_none.mpr fun sk hsk => (hI.fresh sk hsk).ne
    intro sk hsk
    rcases mem_append.mp hsk with hsk | hsk
    · exact (hI.fresh sk hsk).trans (Nat.lt_succ_self _)
    rw [mem_singleton.mp hsk]
    exact Nat.lt_succ_self _
  · exact fun _ => ⟨prefix_append _ _, rfl, fun _ _ => rfl⟩
  · refine Ensured.rely ?_ ht
    exact ⟨not_ended_of_own hown', _, mem_append_right _ (mem_singleton_self _), rfl, rfl⟩

theorem Inv.modifySkills (h : Inv tools s) (hf : ∀ sk, (f sk).id = sk.id ∧ (f sk).slug = sk.slug)
    (hlog : s.log <:+ log)
    (hwrote : ∀ i path archive r, .wrote i path archive r ∈ log → .wrote i path archive r ∈ s.log) :
    Inv tools { s with skills := Table.modify Skill.id id f s.skills, log := log } := by
  have hids : (Table.modify Skill.id id f s.skills).map Skill.id = s.skills.map Skill.id :=
    map_modify fun sk hsk => (hf sk).1.trans hsk
  exact h.update (hids ▸ h.ids) (h.fresh_of_ids hids) (persist_modify _ hf)
    (fun v hv => ⟨v, hv, rfl, rfl, rfl, rfl, rfl⟩) rfl hlog hwrote

theorem ensureSkill_safe {found : Option Skill} (hown : own i s.log = [])
    (hfound : ∀ skill, found = some skill → Present skill s.skills) :
    (ensureSkill i input manifest slug found).Safe (Inv tools) (Rely i) (Guar i) (Ensured i) s := by
  cases found with
  | none => exact createSkill_safe hown
  | some skill => ?_
  have hskill := hfound skill rfl
  rw [ensureSkill]
  generalize displayNameOf input manifest slug = displayName,
    descriptionOf input manifest = description
  split
  · refine safe_attempt_bind (Guar.refl i) fun s' hR hI => ⟨fun err => ?_, fun e => ?_⟩
    · exact fun t ht _ => (hR.trans ht).own.trans hown
    have hkept : Persist s'.skills (Table.modify Skill.id skill.id
        (fun sk => { sk with
          displayName := displayName, description := description, updatedAt := e.now })
        s'.skills) := persist_modify _ fun _ => ⟨rfl, rfl⟩
    refine ⟨hI.modifySkills ?_ (suffix_cons _ _) ?_,
      Guar.step (.retitled i) rfl rfl hkept fun hu => absurd mem_cons_self hu.titles, ?_⟩
    · exact fun _ => ⟨rfl, rfl⟩
    · exact fun _ _ _ _ hw => mem_of_ne_of_mem (by simp) hw
    refine fun t ht _ => Ensured.rely (r := .ok _) ⟨?_, ?_⟩ ht
    · exact not_ended_cons (not_ended_of_own (hR.own.trans hown)) (by simp [Ended])
    · exact (hskill.persist hR.skills).persist hkept
  · exact fun t ht _ => Ensured.rely (r := .ok skill) ⟨not_ended_of_own hown, hskill⟩ ht

theorem createVersion_safe (hid : v.skillID = skill.id)
    (hpath : v.archivePath = (skill.slug, v.version)) (hsize : v.archiveSize = input.archive.length)
    (hsha : v.archiveSHA256 = tools.sha256 input.archive)
    (hwrote : .wrote i v.archivePath input.archive r ∈ s.log) (hopen : ¬ Ended s.log i)
    (hskill : Present skill s.skills) :
    (createVersion i v.archivePath input.archive v).Safe (Inv tools) (Rely i) (Guar i)
      (Harmless i) s := by
  refine safe_act.mpr fun s' hR hI e => ?_
  have hwrote' : .wrote i v.archivePath input.archive r ∈ s'.log := hR.log.subset hwrote
  have hopen' : ¬ Ended s'.log i := (ended_congr hR.own).not.mpr hopen
  have hskill' : Present skill s'.skills := hskill.persist hR.skills
  cases checkVersion v <|> e.storeErr with
  | some err =>
    refine ⟨hI.note (by simp), Guar.note (.failed i) rfl _, ?_⟩
    exact fun t ht _ => Harmless.rely (fun hrun _ _ => untouched_of_failed hrun hopen') ht
  | none => ?_
  dsimp only
  split
  · next hany =>
    refine ⟨hI.note (by simp), Guar.note (.conflicted i) rfl _, ?_⟩
    refine fun t ht _ => Harmless.rely (fun hrun _ _ => ?_) ht
    -- a row in the way would point to the file that was put in place
    obtain ⟨w, hw, hconf⟩ := any_eq_true.mp hany
    rw [hpath] at hwrote'
    exact absurd (hid ▸ of_decide_eq_true hconf)
      (hI.no_conflict hrun.exclusive.tail hwrote' hopen' hskill' w hw)
  · obtain ⟨sk, hsk, hskid, hslug⟩ := hskill'
    refine ⟨hI.publish (v := { v with manifest := _, uploadedAt := e.now }) hwrote' hopen'
        ?_ ?_ ?_ hsize hsha,
      Guar.step (.published i v.archivePath input.archive) rfl rfl ?_ fun hu =>
        absurd mem_cons_self (hu.rows _ _), ?_⟩
    · exact map_modify fun _ h => h
    · exact persist_modify _ fun _ => ⟨rfl, rfl⟩
    · exact ⟨sk, hsk, hskid.trans hid.symm, hslug ▸ hpath⟩
    · exact persist_modify _ fun _ => ⟨rfl, rfl⟩
    · refine fun t ht _ => Harmless.rely (fun _ _ hr => ?_) ht
      cases hr

theorem publish_safe (hopen : ¬ Ended s.log i) (hskill : Present skill s.skills) :
    (publish tools i input manifest skill).Safe (Inv tools) (Rely i) (Guar i) (Harmless i) s := by
  refine safe_act_bind.mpr fun s' hR hI e => ?_
  have hopen' : ¬ Ended s'.log i := (ended_congr hR.own).not.mpr hopen
  cases e.fsErr with
  | some err =>
    refine ⟨hI.note (by simp), Guar.note (.failed i) rfl _, ?_⟩
    exact fun t ht _ => Harmless.rely (fun hrun _ _ => untouched_of_failed hrun hopen') ht
  | none => ?_
  refine ⟨hI.write i _ _, Guar.write i _ _ s', ?_⟩
  have hstill : ∀ r, ¬ Ended (.wrote i (skill.slug, input.version) input.archive r :: s'.log) i :=
    fun r => not_ended_cons hopen' (by simp [Ended])
  cases manifest.json with
  | error err =>
    refine safe_act_bind.mpr fun t ht hIt _ => ?_
    refine ⟨hIt.note (by simp), Guar.note (.failed i) rfl _, ?_⟩
    have hopent : ¬ Ended t.log i := (ended_congr ht.own).not.mpr (hstill _)
    exact fun u hu _ => Harmless.rely (fun hrun _ _ => untouched_of_failed hrun hopent) hu
  | ok json =>
    exact createVersion_safe rfl rfl rfl rfl mem_cons_self (hstill _) (hskill.persist hR.skills)

/-- **An upload keeps the invariant**, among others that do. -/
theorem upload_safe (hown : own i s.log = []) :
    (upload tools i input).Safe (Inv tools) (Rely i) (Guar i) (Harmless i) s := by
  have herr : ∀ {t : State}, own i t.log = [] →
      ∀ err, Harmless (α := SkillVersion) i (.error err) t :=
    fun ht _ _ _ _ => untouched_of_own ht
  unfold upload
  split
  · exact fun t ht _ => (herr hown _).rely ht
  next manifest slug _ =>
  refine safe_attempt_bind (Guar.refl i) fun s' hR hI => ⟨fun err => ?_, fun e => ?_⟩
  · exact fun t ht _ => (herr (hR.own.trans hown) _).rely ht
  refine ⟨hI, Guar.refl i s', ?_⟩
  have hfound : ∀ skill, (s'.skills.find? fun sk => sk.slug = slug) = some skill →
      Present skill s'.skills := fun skill hsk =>
    ⟨skill, mem_of_find?_eq_some hsk, rfl, rfl⟩
  refine safe_bind (Rely.refl i) (ensureSkill_safe (hR.own.trans hown) hfound) ?_
  intro r t _ hr
  cases r with
  | error err => exact fun u hu _ => (herr hr _).rely hu
  | ok skill => exact publish_safe hr.1 hr.2

/-! ### Whole runs -/

theorem Guar.rely {j : ℕ} (hij : i ≠ j) (h : Guar i s s') : Rely j s s' :=
  ⟨h.log, h.others j hij.symm, h.skills⟩

theorem world_inv (ev : WorldEvent) (s : State) (h : Inv tools s) :
    Inv tools (world ev s) ∧ ∀ i, Rely i s (world ev s) := by
  cases ev with
  | yankVersion skillID version yankedAt =>
    refine ⟨?_, fun i => ⟨suffix_refl _, rfl, Persist.refl _⟩⟩
    refine h.update h.ids h.fresh (Persist.refl _) ?_ rfl (suffix_refl _) fun _ _ _ _ hw => hw
    intro v' hv'
    obtain ⟨v, hv, rfl⟩ := mem_map.mp hv'
    refine ⟨v, hv, ?_⟩
    split <;> exact ⟨rfl, rfl, rfl, rfl, rfl⟩
  | yankSkill id yankedAt now =>
    refine ⟨?_, fun i => ⟨suffix_refl _, rfl, persist_modify _ fun _ => ⟨rfl, rfl⟩⟩⟩
    refine h.modifySkills ?_ (suffix_refl _) fun _ _ _ _ hw => hw
    exact fun _ => ⟨rfl, rfl⟩

theorem inv_start (tools : Tools) : Inv tools {} where
  ids := nodup_nil
  fresh := by simp
  rows := by simp
  intact := by simp [Intact]
  held := by simp
  alone := by simp

theorem uploads_safe (tools : Tools) (inputs : List UploadInput) :
    (uploads tools inputs).AllSafe (Inv tools) Rely Guar Harmless :=
  Pool.allSafe_mapIdx (inv_start tools) fun _ _ _ => upload_safe rfl

theorem exec_uploads_safe {P : Pool State Env (Except UploadError SkillVersion)}
    (hP : P.AllSafe (Inv tools) Rely Guar Harmless) (sched : List (Event WorldEvent Env)) :
    (P.exec world sched).AllSafe (Inv tools) Rely Guar Harmless ∧
      P.state.log <:+ (P.exec world sched).state.log := by
  refine ⟨Pool.exec_safe Rely.refl (fun _ _ _ _ => Rely.trans)
    (fun _ _ hij _ _ _ h => h.rely hij) world_inv hP sched, ?_⟩
  exact Pool.exec_within (T := fun s s' => s.log <:+ s'.log) Rely.refl (fun _ _ _ _ => Rely.trans)
    (fun _ _ hij _ _ _ h => h.rely hij) world_inv (fun _ => suffix_refl _)
    (fun _ _ _ => List.IsSuffix.trans) (fun _ _ _ _ h => h.log)
    (fun ev s hI => ((world_inv ev s hI).2 0).log) hP sched

/-- **Published versions are immutable**: in every undisturbed run of uploads and yanks
the file of each row is the one that was uploaded with it, and no step of an upload that
has returned an error has changed anything that was there. -/
theorem versions_immutable (tools : Tools) (inputs : List UploadInput)
    (sched : List (Event WorldEvent Env))
    (hrun : Undisturbed ((uploads tools inputs).exec world sched).state.log) :
    Intact tools ((uploads tools inputs).exec world sched).state ∧
      ∀ i err, ((uploads tools inputs).exec world sched).result i = some (.error err) →
        ∀ before e after, sched = before ++ .run i e :: after →
          Unchanged ((uploads tools inputs).exec world before).state
            ((uploads tools inputs).exec world (before ++ [.run i e])).state := by
  obtain ⟨hsafe, -⟩ := exec_uploads_safe (uploads_safe tools inputs) sched
  refine ⟨hsafe.inv.intact hrun.exclusive, ?_⟩
  intro i err hres before e after hsched
  have huntouched : Untouched _ i := hsafe.post Rely.refl hres hrun err rfl
  obtain ⟨hbefore, -⟩ := exec_uploads_safe (uploads_safe tools inputs) before
  obtain ⟨hstep, -⟩ := exec_uploads_safe (uploads_safe tools inputs) (before ++ [.run i e])
  have hguar := hbefore.guarantee world Rely.refl Guar.refl i e
  have hlater := (exec_uploads_safe hstep after).2
  rw [← Pool.exec_append, append_assoc, singleton_append, ← hsched] at hlater
  rw [Pool.exec_append]
  refine hguar.recorded ?_
  rw [Pool.exec_append] at hlater
  exact huntouched.suffix hlater

/-- A tar archive with a `SKILL.md` for the skill `demo`, compressed. -/
def demoArchive : Bytes :=
  [31, 139, 8, 0, 0, 0, 0, 0, 2, 3, 11, 246, 246, 244, 241, 209, 203, 77, 97, 160, 33, 48, 128, 0,
    92, 180, 129, 129, 137, 57, 130, 13, 22, 55, 55, 52, 54, 96, 80, 48, 96, 160, 3, 40, 45, 46,
    73, 44, 2, 90, 201, 48, 50, 129, 174, 174, 46, 87, 94, 98, 110, 170, 149, 66, 74, 106, 110, 62,
    87, 74, 106, 113, 114, 81, 102, 65, 73, 102, 126, 158, 149, 130, 35, 68, 12, 164, 132, 97, 20,
    12, 79, 0, 0, 116, 152, 145, 224, 0, 4, 0, 0]

def demoArchive₂ : Bytes :=
  [31, 139, 8, 0, 0, 0, 0, 0, 2, 3, 11, 246, 246, 244, 241, 209, 203, 77, 97, 160, 33, 48, 128, 0,
    92, 180, 129, 129, 169, 17, 130, 13, 22, 55, 55, 52, 50, 97, 80, 48, 96, 160, 3, 40, 45, 46,
    73, 44, 2, 90, 201, 48, 50, 129, 174, 174, 46, 87, 94, 98, 110, 170, 149, 66, 74, 106, 110, 62,
    87, 74, 106, 113, 114, 81, 102, 65, 73, 102, 126, 158, 149, 130, 35, 68, 12, 164, 196, 47, 181,
    156, 97, 20, 12, 67, 0, 0, 35, 137, 143, 234, 0, 4, 0, 0]

def demoTools : Tools where
  sha256 archive :=
    if archive = demoArchive then
      "e17658a0407208cc56733f8e80dbf47789d484e21a9ef6d55689c42071e10a1f"
    else if archive = demoArchive₂ then
      "e029ba28c16fa39625a920a946cd75e0347256c3b509eb8b1f2c57f975d77902"
    else ""
  validateArchive archive :=
    if archive = demoArchive ∨ archive = demoArchive₂ then
      .ok ⟨"demo", "A demo", .ok "\x7b\"name\":\"demo\",\"description\":\"A demo\"\x7d"⟩
    else .error "not a gzip stream"

def demoInput (archive : Bytes) : UploadInput where
  version := "1.0.0"
  archive := archive

/-- Two versions of the skill are uploaded, and an archive that is refused in between. -/
theorem versions_immutable_first :
    let P := (uploads demoTools [demoInput demoArchive,
        { demoInput demoArchive₂ with version := "2.0.0" }, demoInput []]).exec world
      ([.run 0 {}, .run 2 {}] ++ replicate 4 (.run 0 {}) ++ replicate 4 (.run 1 {}))
    P.state.versions.length = 2 ∧ (P.result 2).map Except.isOk = some false ∧
      Intact demoTools P.state := by
  intro P
  have hlog : P.state.log = [.published 1 ("demo", "2.0.0") demoArchive₂,
      .wrote 1 ("demo", "2.0.0") demoArchive₂ false,
      .published 0 ("demo", "1.0.0") demoArchive,
      .wrote 0 ("demo", "1.0.0") demoArchive false] := by
    decide +kernel
  have hrun : Undisturbed P.state.log := by
    rw [hlog]
    exact ⟨by simp [Exclusive], by simp⟩
  have hkept := versions_immutable demoTools [demoInput demoArchive,
      { demoInput demoArchive₂ with version := "2.0.0" }, demoInput []]
    ([.run 0 {}, .run 2 {}] ++ replicate 4 (.run 0 {}) ++ replicate 4 (.run 1 {})) hrun
  exact ⟨by decide +kernel, by decide +kernel, hkept.1⟩

/-- The version is uploaded, then uploaded again with other bytes: the second upload
returns a conflict, and has replaced the archive. -/
theorem version_replaced :
    let P := (uploads demoTools [demoInput demoArchive, demoInput demoArchive₂]).exec world
      (replicate 4 (.run 0 {}) ++ replicate 4 (.run 1 {}))
    P.result 1 = some (.error .versionConflict) ∧ ¬ Intact demoTools P.state := by
  intro P
  have hrow : P.state.versions.map SkillVersion.archivePath = [("demo", "1.0.0")] := by
    decide +kernel
  have hlog : P.state.log = [.conflicted 1, .wrote 1 ("demo", "1.0.0") demoArchive₂ true,
      .published 0 ("demo", "1.0.0") demoArchive,
      .wrote 0 ("demo", "1.0.0") demoArchive false] := by
    decide +kernel
  have hfile : P.state.files.lookup ("demo", "1.0.0") = some demoArchive₂ := by decide +kernel
  have hne : demoArchive₂ ≠ demoArchive := by decide
  refine ⟨by decide +kernel, fun hintact => ?_⟩
  obtain ⟨v, hv, hpath⟩ := mem_map.mp (hrow ▸ mem_singleton_self _)
  obtain ⟨i, archive, hpub, hlookup, -, -⟩ := hintact v hv
  rw [hpath] at hpub hlookup
  rw [hfile] at hlookup
  cases hlookup
  simp [hlog, hne] at hpub

end ArcRelay.Skills
