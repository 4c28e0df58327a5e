import ArcRelay.Skills.Upload

/-!
# The pointer to the latest version

The row of a skill names its latest version (`internal/store/skills.go`).  The pointer is
written by the statement that inserts the row of a version, so it names the version that was
uploaded last, whatever its number; no other statement writes it.  In particular a yank
leaves it where it is.

The invariant is kept by an upload among others, by rely and guarantee: the one thing an
upload has to know about the others is that ids are not given twice.
-/

namespace ArcRelay.Skills

open Interleave Prog Json List Nat Table

def State.uploadsOf (s : State) (id : ℕ) : List SkillVersion :=
  s.versions.filter fun v => v.skillID = id

def State.lastUpload (s : State) (id : ℕ) : Option SkillVersion := (s.uploadsOf id).getLast?

def Skill.entry (sk : Skill) : ℕ × String × Option String := (sk.id, sk.slug, sk.latestVersion)

def SkillVersion.key (v : SkillVersion) : ℕ × String := (v.skillID, v.version)

structure Pointed (s : State) : Prop where
  ids : (s.skills.map Skill.id).Nodup
  slugs : (s.skills.map Skill.slug).Nodup
  fresh : ∀ sk ∈ s.skills, sk.id < s.nextID
  known : ∀ v ∈ s.versions, v.skillID < s.nextID
  keys : (s.versions.map SkillVersion.key).Nodup
  named : ∀ v ∈ s.versions, v.version ≠ ""
  latest : ∀ sk ∈ s.skills, sk.latestVersion = (s.lastUpload sk.id).map SkillVersion.version

variable {s s' : State} {skill : Skill}

theorem pointed_start : Pointed {} where
  ids := nodup_nil
  slugs := nodup_nil
  fresh := by simp
  known := by simp
  keys := nodup_nil
  named := by simp
  latest := by simp

theorem lastUpload_version (s : State) (id : ℕ) :
    (s.lastUpload id).map SkillVersion.version =
      (((s.versions.map SkillVersion.key).filter fun k => k.1 = id).getLast?).map Prod.snd := by
  have hfilter : ((s.versions.map SkillVersion.key).filter fun k => k.1 = id) =
      (s.uploadsOf id).map SkillVersion.key := by
    rw [State.uploadsOf, filter_map]
    rfl
  rw [hfilter, getLast?_map, Option.map_map, State.lastUpload]
  rfl

/-- Statements that write other columns. -/
structure SamePointers (s s' : State) : Prop where
  skills : s'.skills.map Skill.entry = s.skills.map Skill.entry
  versions : s'.versions.map SkillVersion.key = s.versions.map SkillVersion.key
  nextID : s'.nextID = s.nextID

theorem SamePointers.refl (s : State) : SamePointers s s := ⟨rfl, rfl, rfl⟩

theorem Pointed.congr (h : Pointed s) (hsame : SamePointers s s') : Pointed s' := by
  obtain ⟨hskills, hversions, hnext⟩ := hsame
  -- rows correspond by the columns that matter
  have hskill : ∀ sk' ∈ s'.skills, ∃ sk ∈ s.skills, sk.entry = sk'.entry := by
    intro sk' hsk'
    have hmem := mem_map_of_mem (f := Skill.entry) hsk'
    rw [hskills] at hmem
    exact mem_map.mp hmem
  have hversion : ∀ v' ∈ s'.versions, ∃ v ∈ s.versions, v.key = v'.key := by
    intro v' hv'
    have hmem := mem_map_of_mem (f := SkillVersion.key) hv'
    rw [hversions] at hmem
    exact mem_map.mp hmem
  refine ⟨?_, ?_, ?_, ?_, ?_, ?_, ?_⟩
  · have hids := congrArg (List.map Prod.fst) hskills
    rw [map_map, map_map] at hids
    exact hids ▸ h.ids
  · have hslugs := congrArg (List.map fun e => e.2.1) hskills
    rw [map_map, map_map] at hslugs
    exact hslugs ▸ h.slugs
  · intro sk' hsk'
    obtain ⟨sk, hsk, heq⟩ := hskill sk' hsk'
    simp only [Skill.entry, Prod.mk.injEq] at heq
    rw [hnext, ← heq.1]
    exact h.fresh sk hsk
  · intro v' hv'
    obtain ⟨v, hv, heq⟩ := hversion v' hv'
    simp only [SkillVersion.key, Prod.mk.injEq] at heq
    rw [hnext, ← heq.1]
    exact h.known v hv
  · exact hversions ▸ h.keys
  · intro v' hv'
    obtain ⟨v, hv, heq⟩ := hversion v' hv'
    simp only [SkillVersion.key, Prod.mk.injEq] at heq
    rw [← heq.2]
    exact h.named v hv
  · intro sk' hsk'
    obtain ⟨sk, hsk, heq⟩ := hskill sk' hsk'
    simp only [Skill.entry, Prod.mk.injEq] at heq
    rw [lastUpload_version, hversions, ← lastUpload_version, ← heq.1, ← heq.2.2]
    exact h.latest sk hsk

theorem Pointed.create (h : Pointed s) (hid : skill.id = s.nextID)
    (hslug : ∀ sk ∈ s.skills, sk.slug ≠ skill.slug) (hlatest : skill.latestVersion = none) :
    Pointed { s with skills := s.skills ++ [skill], nextID := s.nextID + 1 } := by
  have hnone : s.lastUpload s.nextID = none := by
    rw [State.lastUpload, getLast?_eq_none_iff, State.uploadsOf, filter_eq_nil_iff]
    intro v hv
    have := h.known v hv
    simp only [decide_eq_true_eq]
    omega
  refine ⟨?_, ?_, ?_, ?_, h.keys, h.named, ?_⟩
  · refine nodup_append_row h.ids (find_eq_none.mpr fun sk hsk => ?_)
    have := h.fresh sk hsk
    omega
  · exact nodup_append_row h.slugs (find_eq_none.mpr hslug)
  · intro sk hsk
    rcases mem_append.mp hsk with hsk | hsk
    · exact lt_succ_of_lt (h.fresh sk hsk)
    rw [mem_singleton.mp hsk, hid]
    exact lt_succ_self _
  · exact fun v hv => lt_succ_of_lt (h.known v hv)
  · intro sk hsk
    rcases mem_append.mp hsk with hsk | hsk
    · exact h.latest sk hsk
    rw [mem_singleton.mp hsk, hid, hlatest]
    exact (congrArg (Option.map _) hnone).symm

theorem Pointed.publish (h : Pointed s) {v : SkillVersion} (hid : v.skillID < s.nextID)
    (hname : v.version ≠ "") (hnew : ∀ w ∈ s.versions, w.key ≠ v.key) {skills : List Skill}
    {f : Skill → Skill} (hskills : skills = Table.modify Skill.id v.skillID f s.skills)
    (hf : ∀ sk, (f sk).id = sk.id ∧ (f sk).slug = sk.slug ∧ (f sk).latestVersion = some v.version) :
    Pointed { s with versions := s.versions ++ [v], skills := skills } := by
  subst hskills
  -- the pointer moves for the skill of the version, and stays for the others
  have hmem : ∀ sk' ∈ Table.modify Skill.id v.skillID f s.skills, ∃ sk ∈ s.skills,
      sk'.id = sk.id ∧ sk'.latestVersion =
        if sk.id = v.skillID then some v.version else sk.latestVersion := by
    intro sk' hsk'
    obtain ⟨sk, hsk, rfl⟩ := mem_map.mp hsk'
    refine ⟨sk, hsk, ?_⟩
    split
    · exact ⟨(hf sk).1, (hf sk).2.2⟩
    · exact ⟨rfl, rfl⟩
  refine ⟨?_, ?_, ?_, ?_, ?_, ?_, ?_⟩
  · exact nodup_modify (fun sk hsk => (hf sk).1.trans hsk) h.ids
  · rw [map_modify_eq fun sk _ => (hf sk).2.1]
    exact h.slugs
  · intro sk' hsk'
    obtain ⟨sk, hsk, heq, -⟩ := hmem sk' hsk'
    rw [heq]
    exact h.fresh sk hsk
  · intro w hw
    rcases mem_append.mp hw with hw | hw
    · exact h.known w hw
    rw [mem_singleton.mp hw]
    exact hid
  · exact nodup_append_row h.keys (find_eq_none.mpr hnew)
  · intro w hw
    rcases mem_append.mp hw with hw | hw
    · exact h.named w hw
    rw [mem_singleton.mp hw]
    exact hname
  · intro sk' hsk'
    obtain ⟨sk, hsk, heq, hlatest⟩ := hmem sk' hsk'
    rw [hlatest, heq, State.lastUpload, State.uploadsOf, filter_append]
    split
    · next hown => simp [hown]
    next hother =>
    rw [filter_singleton, decide_eq_false (Ne.symm hother), cond_false, append_nil]
    exact h.latest sk hsk

/-! ### An upload -/

/-- What uploads may do to each other: ids are not given twice. -/
def Grows (s s' : State) : Prop := s.nextID ≤ s'.nextID

theorem Grows.refl (s : State) : Grows s s := le_rfl

theorem Grows.trans {a b c : State} (hab : Grows a b) (hbc : Grows b c) : Grows a c :=
  le_trans hab hbc

def Given (r : Except UploadError Skill) (s : State) : Prop :=
  ∀ skill, r = .ok skill → skill.id < s.nextID

theorem given_error {err : UploadError} : Given (.error err) s := by
  rintro skill ⟨⟩

theorem given_ok {t : State} (h : skill.id < s.nextID) (hR : Grows s t) : Given (.ok skill) t := by
  rintro _ ⟨⟩
  exact lt_of_lt_of_le h hR

variable {tools : Tools} {i : ℕ} {input : UploadInput} {manifest : Manifest} {v : SkillVersion}

theorem createSkill_pointed (slug : String) :
    (createSkill input manifest slug).Safe Pointed Grows Grows Given s := by
  unfold createSkill
  extract_lets visibility
  split
  · exact fun t _ _ => given_error
  refine safe_act.mpr fun s' hR hI e => ?_
  cases e.storeErr with
  | some err => exact ⟨hI, Grows.refl s', fun t _ _ => given_error⟩
  | none => ?_
  dsimp only
  split
  · exact ⟨hI, Grows.refl s', fun t _ _ => given_error⟩
  next hnew =>
  refine ⟨hI.create rfl ?_ rfl, le_succ _, fun t ht _ => ?_⟩
  · simpa using hnew
  · exact given_ok (lt_succ_self s'.nextID) ht

theorem ensureSkill_pointed {slug : String} {found : Option Skill}
    (hfound : ∀ skill, found = some skill → skill.id < s.nextID) :
    (ensureSkill i input manifest slug found).Safe Pointed Grows Grows Given s := by
  cases found with
  | none => exact createSkill_pointed slug
  | some skill => ?_
  have hid := hfound skill rfl
  rw [ensureSkill]
  generalize displayNameOf input manifest slug = displayName,
    descriptionOf input manifest = description
  split
  · refine safe_attempt_bind Grows.refl fun s' hR hI => ⟨fun err => ?_, fun e => ?_⟩
    · exact fun t _ _ => given_error
    refine ⟨hI.congr ⟨map_modify_eq (by exact fun _ _ => rfl), rfl, rfl⟩, Grows.refl s', ?_⟩
    exact fun t ht _ => given_ok (lt_of_lt_of_le hid hR) ht
  · exact fun t ht _ => given_ok hid ht

theorem checkVersion_named (h : checkVersion v = none) : v.version ≠ "" := by
  intro hempty
  rw [checkVersion, if_pos hempty] at h
  cases h

theorem createVersion_pointed {path : ArchivePath} {archive : Bytes} (hid : v.skillID < s.nextID) :
    (createVersion i path archive v).Safe Pointed Grows Grows (fun _ _ => True) s := by
  refine safe_act.mpr fun s' hR hI e => ?_
  cases hcheck : checkVersion v <|> e.storeErr with
  | some err => exact ⟨hI.congr ⟨rfl, rfl, rfl⟩, Grows.refl s', fun _ _ _ => trivial⟩
  | none => ?_
  dsimp only
  split
  · exact ⟨hI.congr ⟨rfl, rfl, rfl⟩, Grows.refl s', fun _ _ _ => trivial⟩
  next hnew =>
  have hname : v.version ≠ "" := by
    refine checkVersion_named ?_
    cases hv : checkVersion v with
    | none => rfl
    | some err =>
      rw [hv] at hcheck
      cases hcheck
  have hfree : ∀ w ∈ s'.versions, w.key ≠ v.key := by
    intro w hw heq
    simp only [any_eq_true, decide_eq_true_eq, not_exists, not_and] at hnew
    simp only [SkillVersion.key, Prod.mk.injEq] at heq
    exact hnew w hw heq.1 heq.2
  -- the id was given before the step, and ids are not taken back
  have hpub := hI.publish (v := { v with
    manifest := if v.manifest = "" then "\x7b\x7d" else v.manifest, uploadedAt := e.now })
    (lt_of_lt_of_le hid hR) hname hfree rfl (f := fun sk => { sk with
      latestVersion := some v.version, updatedAt := e.now }) fun _ => ⟨rfl, rfl, rfl⟩
  exact ⟨hpub.congr ⟨rfl, rfl, rfl⟩, Grows.refl s', fun _ _ _ => trivial⟩

theorem publish_pointed (hid : skill.id < s.nextID) :
    (publish tools i input manifest skill).Safe Pointed Grows Grows (fun _ _ => True) s := by
  refine safe_act_bind.mpr fun s' hR hI e => ?_
  cases e.fsErr with
  | some err => exact ⟨hI.congr ⟨rfl, rfl, rfl⟩, Grows.refl s', fun _ _ _ => trivial⟩
  | none => ?_
  refine ⟨hI.congr ⟨rfl, rfl, rfl⟩, Grows.refl s', ?_⟩
  cases manifest.json with
  | error err =>
    refine safe_act_bind.mpr fun t _ hIt _ => ?_
    exact ⟨hIt.congr ⟨rfl, rfl, rfl⟩, Grows.refl t, fun _ _ _ => trivial⟩
  | ok json => exact createVersion_pointed (lt_of_lt_of_le hid hR)

/-- **An upload keeps the pointers**, among others that do. -/
theorem upload_pointed (tools : Tools) (i : ℕ) (input : UploadInput) (s : State) :
    (upload tools i input).Safe Pointed Grows Grows (fun _ _ => True) s := by
  unfold upload
  split
  · exact fun _ _ _ => trivial
  next manifest slug _ =>
  refine safe_attempt_bind Grows.refl fun s' _ hI => ⟨fun err => ?_, fun e => ?_⟩
  · exact fun _ _ _ => trivial
  refine ⟨hI, Grows.refl s', ?_⟩
  have hfound : ∀ skill, (s'.skills.find? fun sk => sk.slug = slug) = some skill →
      skill.id < s'.nextID := fun skill hsk =>
    hI.fresh skill (mem_of_find?_eq_some hsk)
  refine safe_bind Grows.refl (ensureSkill_pointed hfound) fun r t _ hr => ?_
  cases r with
  | error err => exact fun _ _ _ => trivial
  | ok skill => exact publish_pointed (hr skill rfl)

end ArcRelay.Skills
