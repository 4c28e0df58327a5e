import ArcRelay.Skills.Client

/-!
# What a sync does

A sync wants one version of each skill that is listed for its user.  Three things are proved
of it, for every listing, every directory and whatever fails on the way.  What its report
calls installed, updated or unchanged is a wanted version.  What it marks on disk is a wanted
version too: temporary directories, moves and rollbacks make no marker but that one.  And a
client that has the wanted version already keeps it.
-/

namespace ArcRelay.Skills.Client

open Interleave Prog Json Api List

/-! ### What a report says -/

/-- What a client has got or kept, by its report. -/
def SkillSyncReport.rolledOut (report : SkillSyncReport) : List SkillSyncAction :=
  report.installed ++ report.updated ++ report.unchanged

/-- The version is the wanted one of a skill that is listed. -/
def Wanted (assigned : List AssignedSkill) (slug version : String) : Prop :=
  ∃ a ∈ assigned, a.skill.slug = slug ∧ wantVersion a = version

/-- All that was rolled out is wanted. -/
def SkillSyncReport.Wanted (assigned : List AssignedSkill) (report : SkillSyncReport) : Prop :=
  ∀ act ∈ report.rolledOut, Client.Wanted assigned act.slug act.version

variable {assigned : List AssignedSkill} {report : SkillSyncReport} {slug version : String}

theorem SkillSyncReport.Wanted.add {next : SkillSyncReport} (h : report.Wanted assigned)
    (hwant : Client.Wanted assigned slug version)
    (hnext : ∀ act ∈ next.rolledOut, act ∈ report.rolledOut ∨ act.slug = slug ∧
      act.version = version) : next.Wanted assigned := by
  intro act hact
  rcases hnext act hact with hold | ⟨rfl, rfl⟩
  · exact h act hold
  · exact hwant

theorem SkillSyncReport.Wanted.install (h : report.Wanted assigned)
    (hwant : Client.Wanted assigned slug version) (cur : Option InstalledSkill) :
    (report.install slug version cur).Wanted assigned := by
  refine h.add hwant fun act hact => ?_
  cases cur with
  | none | some _ => grind [SkillSyncReport.install, SkillSyncReport.rolledOut]

theorem SkillSyncReport.Wanted.keep (h : report.Wanted assigned)
    (hwant : Client.Wanted assigned slug version) :
    SkillSyncReport.Wanted assigned
      { report with unchanged := report.unchanged ++ [⟨slug, version, ""⟩] } := by
  refine h.add hwant fun act hact => ?_
  grind [SkillSyncReport.rolledOut]

variable {m : SkillManager} {dryRun : Bool} {installed : List InstalledSkill}

theorem syncSkill_wanted {a : AssignedSkill} (ha : a ∈ assigned) (h : report.Wanted assigned) :
    (syncSkill m dryRun installed report a).Returns (SkillSyncReport.Wanted assigned) := by
  have hwant : Wanted assigned a.skill.slug (wantVersion a) := ⟨a, ha, rfl, rfl⟩
  unfold syncSkill
  extract_lets slug want cur
  split
  · exact returns_pure h
  split
  · exact returns_pure h
  split
  · exact returns_pure (h.keep hwant)
  split
  · exact returns_pure (h.install hwant cur)
  refine Prog.Returns.bind _ fun r => ?_
  cases r with
  | error err => exact returns_pure h
  | ok marker => exact returns_pure (h.install hwant cur)

theorem syncSkills_wanted {rows : List AssignedSkill} (hrows : rows ⊆ assigned)
    (h : report.Wanted assigned) :
    (syncSkills m dryRun installed rows report).Returns (SkillSyncReport.Wanted assigned) := by
  induction rows generalizing report with
  | nil => exact returns_pure h
  | cons a rows ih =>
    rw [cons_subset] at hrows
    exact (syncSkill_wanted hrows.1 h).bind_returns fun r hr => ih hrows.2 hr

theorem dropSkills_rolledOut (rows : List InstalledSkill) (report : SkillSyncReport) :
    (dropSkills dryRun rows report).Returns fun r =>
      r.rolledOut = report.rolledOut ∧ r.unchanged = report.unchanged := by
  induction rows generalizing report with
  | nil => exact returns_pure ⟨rfl, rfl⟩
  | cons cur rows ih => ?_
  have hdrop : (dropSkill dryRun report cur).Returns fun r =>
      r.rolledOut = report.rolledOut ∧ r.unchanged = report.unchanged := by
    unfold dropSkill
    split
    · exact returns_pure ⟨rfl, rfl⟩
    split
    · exact returns_pure ⟨rfl, rfl⟩
    refine Prog.Returns.bind _ fun r => ?_
    cases r with
    | error _ | ok _ => exact returns_pure ⟨rfl, rfl⟩
  refine hdrop.bind_returns fun r hr => ?_
  rw [← hr.1, ← hr.2]
  exact ih r

/-- **What is rolled out is wanted**: a report says of nothing that it was installed, updated
or left unchanged but of the wanted versions of skills that are listed. -/
theorem reconcile_wanted (m : SkillManager) (dryRun : Bool) (assigned : List AssignedSkill) :
    (reconcile m dryRun assigned).Returns fun r =>
      ∀ report, r = .ok report → report.Wanted assigned := by
  refine Prog.Returns.bind _ fun rows => ?_
  cases rows with
  | error err => exact returns_pure (by simp)
  | ok rows => ?_
  have hstart : SkillSyncReport.Wanted assigned {} := by
    simp [SkillSyncReport.Wanted, SkillSyncReport.rolledOut]
  refine (syncSkills_wanted (.refl _) hstart).bind_returns fun r hr => ?_
  refine Prog.Returns.bind _ fun order => ?_
  refine (dropSkills_rolledOut _ r).bind_returns fun r' hr' => returns_pure ?_
  rintro report ⟨⟩
  intro act hact
  exact hr act (hr'.1 ▸ hact)

/-! ### What a sync leaves on disk -/

/-- A directory has the marker. -/
def Dir.Marked (d : Dir) (marker : SkillMarker) : Prop := ∃ name, (name, .marked marker) ∈ d

/-- Markers that are new are wanted. -/
def Marks (assigned : List AssignedSkill) (d d' : Dir) : Prop :=
  ∀ marker, d'.Marked marker → d.Marked marker ∨ Wanted assigned marker.slug marker.version

variable {d : Dir} {marker : SkillMarker} {α : Type}

theorem Marks.of_subset {d' : Dir} (h : ∀ f ∈ d', f ∈ d) : Marks assigned d d' := by
  rintro marker ⟨name, hf⟩
  exact .inl ⟨name, h _ hf⟩

theorem Marks.refl (d : Dir) : Marks assigned d d := Marks.of_subset fun _ hf => hf

theorem Marks.trans {a b c : Dir} (hab : Marks assigned a b) (hbc : Marks assigned b c) :
    Marks assigned a c := by
  intro marker hmark
  rcases hbc marker hmark with hb | hwant
  · exact hab marker hb
  · exact .inr hwant

theorem fileOp_marks {f : Dir → Dir} (h : ∀ d, Marks assigned d (f d)) :
    (fileOp f).Within (Marks assigned) :=
  within_attempt Marks.refl fun d _ => h d

theorem without_subset (d : Dir) (name : String) : ∀ f ∈ d.without name, f ∈ d :=
  fun _ hf => mem_of_mem_filter hf

theorem removeAll_marks (name : String) : (removeAll name).Within (Marks assigned) :=
  (fileOp_marks fun d => .of_subset (without_subset d name)).bind fun _ => within_pure _

theorem clean_marks (name : String) (a : α) :
    (removeAll name >>= fun _ => pure a).Within (Marks assigned) :=
  (removeAll_marks name).bind fun _ => within_pure a

theorem mem_of_lookup {name : String} {node : Node} (h : d.lookup name = some node) :
    (name, node) ∈ d := by
  obtain ⟨l1, l2, rfl, -⟩ := lookup_eq_some_iff.mp h
  simp

theorem rename_marks (old new : String) : (rename old new).Within (Marks assigned) := by
  refine within_act.mpr fun d e => ?_
  cases e.fsErr with
  | some err => exact Marks.refl d
  | none => ?_
  dsimp only
  split
  · exact Marks.refl d
  next node hnode =>
  split
  · exact Marks.refl d
  rintro marker ⟨name, hf⟩
  rcases mem_cons.mp hf with heq | hf
  · cases heq
    exact .inl ⟨old, mem_of_lookup hnode⟩
  · exact .inl ⟨name, without_subset d old _ hf⟩

theorem mkdirTemp_marks : mkdirTemp.Within (Marks assigned) := by
  refine within_act.mpr fun d e => ?_
  cases e.fsErr with
  | some err => exact Marks.refl d
  | none => ?_
  dsimp only
  split
  · exact Marks.refl d
  rintro marker ⟨name, hf⟩
  rcases mem_cons.mp hf with heq | hf
  · cases heq
  · exact .inl ⟨name, hf⟩

theorem writeMarker_marks (name : String) (hwant : Wanted assigned marker.slug marker.version) :
    (writeMarker name marker).Within (Marks assigned) := by
  refine fileOp_marks fun d => ?_
  rintro marker' ⟨name', hf⟩
  rcases mem_cons.mp hf with heq | hf
  · obtain ⟨rfl, hnode⟩ := Prod.mk.inj heq
    cases hnode
    exact .inr hwant
  · exact .inl ⟨name', without_subset d name _ hf⟩

theorem readMarker_marks (name : String) : (readMarker name).Within (Marks assigned) := by
  refine within_act.mpr fun d e => ?_
  cases e.fsErr with
  | some err => exact Marks.refl d
  | none =>
    dsimp only
    split <;> exact Marks.refl d

theorem observe_marks (f : Env → α) : (observe f : Run α).Within (Marks assigned) :=
  within_act.mpr fun d _ => Marks.refl d

theorem download_marks : (download m).Within (Marks assigned) := by
  refine (observe_marks _).bind fun reply => ?_
  split
  · exact within_pure _
  split
  · exact within_pure _
  split
  · exact within_pure _
  · exact within_pure _

theorem unpack_marks {archive : Bytes} (hwant : Wanted assigned marker.slug marker.version) :
    (unpack m archive marker).Within (Marks assigned) := by
  refine (fileOp_marks Marks.refl).bindOk (fun _ => within_pure _) fun _ => ?_
  refine mkdirTemp_marks.bindOk (fun _ => within_pure _) fun tmp => ?_
  refine (observe_marks _).bindOk (fun _ => clean_marks tmp _) fun _ => ?_
  exact (writeMarker_marks tmp hwant).bindOk (fun _ => clean_marks tmp _) fun _ => within_pure _

theorem swap_marks (slug tmp : String) (existing : Bool) :
    (swap slug tmp existing).Within (Marks assigned) := by
  unfold swap
  split
  · refine (removeAll_marks _).bind fun _ => ?_
    refine (rename_marks _ _).bindOk (fun _ => clean_marks tmp _) fun _ => ?_
    refine (rename_marks _ _).bindOk (fun _ => ?_) fun _ => clean_marks _ _
    exact (rename_marks _ _).bind fun _ => clean_marks tmp _
  · exact (rename_marks _ _).bindOk (fun _ => clean_marks tmp _) fun _ => within_pure _

theorem fetch_marks (hwant : Wanted assigned slug version) (existing : Bool) :
    (fetch m slug version existing).Within (Marks assigned) := by
  refine download_marks.bindOk (fun _ => within_pure _) fun archive => ?_
  refine (unpack_marks hwant).bindOk (fun _ => within_pure _) fun tmp => ?_
  exact (swap_marks slug tmp existing).bindOk (fun _ => within_pure _) fun _ => within_pure _

theorem install_marks (hwant : Wanted assigned slug version) :
    (install m slug version).Within (Marks assigned) := by
  refine (readMarker_marks slug).bind fun r => ?_
  split
  · exact within_pure _
  · exact within_pure _
  · exact fetch_marks hwant false
  · exact fetch_marks hwant true

theorem remove_marks (slug : String) : (remove slug).Within (Marks assigned) := by
  refine (readMarker_marks slug).bind fun r => ?_
  split
  · exact within_pure _
  · exact within_pure _
  · exact within_pure _
  exact (fileOp_marks fun d => .of_subset (without_subset d slug)).bindOk (fun _ => within_pure _)
    fun _ => within_pure _

theorem listInstalled_marks : listInstalled.Within (Marks assigned) := by
  have hrows : ∀ names, (installedRows names).Within (Marks assigned) := by
    intro names
    induction names with
    | nil => exact within_pure _
    | cons name names ih =>
      exact (readMarker_marks name).bind fun _ => ih.bind fun _ => within_pure _
  exact (within_attempt Marks.refl fun d _ => Marks.refl d).bindOk (fun _ => within_pure _)
    fun names => (hrows names).bind fun _ => within_pure _

theorem syncSkill_marks {a : AssignedSkill} (ha : a ∈ assigned) :
    (syncSkill m dryRun installed report a).Within (Marks assigned) := by
  have hwant : Wanted assigned a.skill.slug (wantVersion a) := ⟨a, ha, rfl, rfl⟩
  unfold syncSkill
  extract_lets slug want cur
  split
  · exact within_pure _
  split
  · exact within_pure _
  split
  · exact within_pure _
  split
  · exact within_pure _
  exact (install_marks hwant).bindOk (fun _ => within_pure _) fun marker => within_pure _

theorem dropSkill_marks (dryRun : Bool) (report : SkillSyncReport) (cur : InstalledSkill) :
    (dropSkill dryRun report cur).Within (Marks assigned) := by
  unfold dropSkill
  split
  · exact within_pure _
  split
  · exact within_pure _
  exact (remove_marks cur.slug).bindOk (fun _ => within_pure _) fun _ => within_pure _

/-- **A sync marks only what is wanted**, whatever fails on the way. -/
theorem reconcile_marks (m : SkillManager) (dryRun : Bool) (assigned : List AssignedSkill) :
    (reconcile m dryRun assigned).Within (Marks assigned) := by
  -- both loops by induction on their rows; what is known of each row is that it is listed
  have hsync : ∀ installed rows report, rows ⊆ assigned →
      (syncSkills m dryRun installed rows report).Within (Marks assigned) := by
    intro installed rows
    induction rows with
    | nil => exact fun _ _ => within_pure _
    | cons a rows ih => ?_
    intro report hrows
    rw [cons_subset] at hrows
    exact (syncSkill_marks hrows.1).bind fun r => ih r hrows.2
  have hdrop : ∀ rows report, (dropSkills dryRun rows report).Within (Marks assigned) := by
    intro rows
    induction rows with
    | nil => exact fun _ => within_pure _
    | cons cur rows ih => exact fun report => (dropSkill_marks dryRun report cur).bind ih
  refine listInstalled_marks.bindOk (fun _ => within_pure _) fun rows => ?_
  refine (hsync _ _ _ (.refl _)).bind fun r => ?_
  exact (observe_marks Env.order).bind fun _ => (hdrop _ r).bind fun _ => within_pure _

/-! ### What a sync leaves alone -/

/-- The wanted version is installed. -/
structure UpToDate (installed : List InstalledSkill) (a : AssignedSkill) : Prop where
  published : wantVersion a ≠ ""
  current : ∃ cur, Table.find InstalledSkill.slug a.skill.slug installed = some cur ∧
    cur.managed = true ∧ cur.version = wantVersion a

variable {a : AssignedSkill} {env : ℕ → Env}

theorem UpToDate.syncSkill (h : UpToDate installed a) (report : SkillSyncReport) :
    syncSkill m dryRun installed report a =
      pure { report with
        unchanged := report.unchanged ++ [⟨a.skill.slug, wantVersion a, ""⟩] } := by
  obtain ⟨cur, hcur, hmanaged, hversion⟩ := h.current
  rw [Client.syncSkill, if_neg h.published, hcur, if_neg (by simp [hmanaged]),
    if_pos (by simp [hversion])]

theorem syncSkill_unchanged (report : SkillSyncReport) (a : AssignedSkill) :
    (syncSkill m dryRun installed report a).Returns fun r =>
      report.unchanged ⊆ r.unchanged := by
  have hsame : ∀ slug version cur,
      (report.install slug version cur).unchanged = report.unchanged := by
    intro slug version cur
    cases cur with
    | none | some _ => rfl
  unfold syncSkill
  extract_lets slug want cur
  split
  · exact returns_pure (.refl _)
  split
  · exact returns_pure (.refl _)
  split
  · exact returns_pure (subset_append_left _ _)
  split
  · exact returns_pure (hsame slug want cur ▸ .refl _)
  refine Prog.Returns.bind _ fun r => ?_
  cases r with
  | error err => exact returns_pure (.refl _)
  | ok marker => exact returns_pure (hsame slug want cur ▸ .refl _)

theorem syncSkills_unchanged (rows : List AssignedSkill) (report : SkillSyncReport) :
    (syncSkills m dryRun installed rows report).Returns fun r =>
      report.unchanged ⊆ r.unchanged ∧
        ∀ a ∈ rows, UpToDate installed a → ⟨a.skill.slug, wantVersion a, ""⟩ ∈ r.unchanged := by
  induction rows generalizing report with
  | nil => exact returns_pure ⟨.refl _, by simp⟩
  | cons a rows ih => ?_
  by_cases ha : UpToDate installed a
  · rw [syncSkills, ha.syncSkill, pure_eq_ret, ret_bind]
    refine (ih _).mono fun r hr => ⟨fun act hact => hr.1 (by simp [hact]), ?_⟩
    intro b hb hup
    rcases mem_cons.mp hb with rfl | hb
    · exact hr.1 (by simp)
    · exact hr.2 b hb hup
  refine (syncSkill_unchanged report a).bind_returns fun r hr => ?_
  refine (ih r).mono fun r' hr' => ⟨List.Subset.trans hr hr'.1, ?_⟩
  intro b hb hup
  rcases mem_cons.mp hb with rfl | hb
  · exact absurd hup ha
  · exact hr'.2 b hb hup

theorem listInstalled_single {k : Except String (List InstalledSkill) → Run α}
    (henv : ∀ n, (env n).fsErr = none) (name : String) (marker : SkillMarker) :
    (listInstalled >>= k).alone env [(name, .marked marker)] =
      (k (.ok [⟨marker.slug, marker.version, name, true⟩])).alone (fun n => env (n + 2))
        [(name, .marked marker)] := by
  have hnames : Dir.names [(name, .marked marker)] = [name] := by simp [Dir.names]
  unfold listInstalled
  rw [bind_bind, attempt, alone_act_bind, henv, hnames]
  dsimp only
  rw [installedRows, bind_bind, bind_bind, readMarker, alone_act_bind, henv]
  simp [installedRows]

/-- **A client that has the wanted version of its one skill keeps it**, and says so. -/
theorem reconcile_keeps (m : SkillManager) (dryRun : Bool) (ha : a ∈ assigned)
    (hpublished : wantVersion a ≠ "") (henv : ∀ n, (env n).fsErr = none)
    (hslug : marker.slug = a.skill.slug) (hversion : marker.version = wantVersion a)
    (name : String) :
    ∃ report, ((reconcile m dryRun assigned).alone env [(name, .marked marker)]).2 = .ok report ∧
      ⟨a.skill.slug, wantVersion a, ""⟩ ∈ report.unchanged := by
  rw [reconcile, listInstalled_single henv]
  dsimp only
  have hup : UpToDate (installedBySlug [⟨marker.slug, marker.version, name, true⟩]) a := by
    refine ⟨hpublished, ⟨marker.slug, marker.version, name, true⟩, ?_, rfl, hversion⟩
    simp [installedBySlug, Table.upsert, Table.find, hslug]
  generalize installedBySlug [⟨marker.slug, marker.version, name, true⟩] = installed at hup
  refine Prog.Returns.alone (Q := fun r : Except SyncError SkillSyncReport => ∃ report,
    r = .ok report ∧ ⟨a.skill.slug, wantVersion a, ""⟩ ∈ report.unchanged) ?_ _ _
  refine (syncSkills_unchanged assigned {}).bind_returns fun r hr => ?_
  refine Prog.Returns.bind _ fun order => ?_
  refine (dropSkills_rolledOut _ r).bind_returns fun r' hr' => returns_pure ⟨r', rfl, ?_⟩
  rw [hr'.2]
  exact hr.2 a ha hup

theorem sync_alone (h : listAssignedSkills (env 0).reply = .ok assigned) (d : Dir) :
    (sync m dryRun).alone env d = (reconcile m dryRun assigned).alone (fun n => env (n + 1)) d := by
  rw [sync, observe, alone_act_bind]
  rw [h]

theorem sync_alone_error {err : ClientError} (h : listAssignedSkills (env 0).reply = .error err)
    (d : Dir) : (sync m dryRun).alone env d = (d, .error (.listAssigned err)) := by
  rw [sync, observe, alone_act_bind]
  rw [h]
  rfl

end ArcRelay.Skills.Client
