import ArcRelay.Access.Directory

/-!
# What is left of an administrator

Authority is kept twice.  The role of a user says who is an administrator, and
administrators pass the checks on endpoints; the access level is what the gate of
management and the tiers look at.  A promotion sets both, and so does every start of the
relay for whoever is an administrator then.  A demotion sets the role alone, and nothing
ever lowers a level: a user who was an administrator once can manage servers with an API
key for good.

`demotion_denies_iff` says that a demotion takes the powers of management away if and only
if the user never had them: the level was not that of administrators at the beginning, and
nothing has raised it.  `demoted_manages` is a user who was promoted and demoted again.
-/

namespace ArcRelay.Access

open Directory Option List Table

/-! ### Sequences of changes -/

/-- The operations on users and keys. -/
inductive Op where
  | createUser (fault : Option String) (id username role : String) (accessLevel : Option Tier)
      (defaultProfileID : Option String)
  | userUpdate (r : UserUpdate)
  | deleteUser (fault : Option String) (id : String)
  | ensureAdmin (fault : Option String) (id : String)
  | createAPIKey (fault : Option String) (k : APIKey)
  | revokeAPIKey (fault : Option String) (id : String)
  | createProfile (fault : Option String) (id : String)
  | deleteProfile (fault : Option String) (id : String)
  | setPermission (fault : Option String) (p : ProfilePermission)
  | removePermission (fault : Option String) (p : ProfilePermission)
  | bulkSetPermissions (fault : Option String) (profileID serverID : String) (perms : List Endpoint)

/-- The directory after an operation. -/
def Op.apply (d : Directory) : Op → Directory
  | .createUser fault id username role accessLevel defaultProfileID =>
    (d.createWithAccessLevel fault id username role accessLevel defaultProfileID).1
  | .userUpdate r => handleUserUpdate r d
  | .deleteUser fault id => (d.deleteUser fault id).1
  | .ensureAdmin fault id => (d.ensureAdmin fault id).1
  | .createAPIKey fault k => (d.createAPIKey fault k).1
  | .revokeAPIKey fault id => (d.revokeAPIKey fault id).1
  | .createProfile fault id => (d.createProfile fault id).1
  | .deleteProfile fault id => (d.deleteProfile fault id).1
  | .setPermission fault p => (d.setPermission fault p).1
  | .removePermission fault p => (d.removePermission fault p).1
  | .bulkSetPermissions fault profileID serverID perms =>
    (d.bulkSetPermissions fault profileID serverID perms).1

/-- The directory after a sequence of operations. -/
def run (ops : List Op) (d : Directory) : Directory := ops.foldl Op.apply d

/-- The form makes the user an administrator. -/
def Op.promotes (id : String) : Op → Bool
  | .userUpdate r => r.userID = id && r.role = "admin"
  | _ => false

/-- The operation raises the access level of the user. -/
def Op.raises (id : String) (d : Directory) : Op → Bool
  | .userUpdate r => r.userID = id && r.role = "admin" && r.levelFault = none
  | .ensureAdmin fault _ => fault = none && (d.user id).any (·.role = "admin")
  | _ => false

/-- The level of the user is raised somewhere along the run. -/
def raisedIn (id : String) : Directory → List Op → Bool
  | _, [] => false
  | d, op :: ops => op.raises id d || raisedIn id (op.apply d) ops

/-- The level of the user before the last change that made an administrator of them. -/
def heldBefore (id : String) (held : Option Tier) : Directory → List Op → Option Tier
  | _, [] => held
  | d, op :: ops =>
    let held' :=
      match d.user id with
      | none => held
      | some u => if op.promotes id ∧ u.role ≠ "admin" then some u.accessLevel else held
    heldBefore id held' (op.apply d) ops

/-- The user is no administrator and has no more access than before. -/
structure Demoted (held : Option Tier) (user : User) : Prop where
  denied : (requireAdminAccess (some user)).isSome = true
  checked : user.role ≠ "admin"
  level : ∀ level, held = some level →
    ∀ tier, checkAccess user.accessLevel tier = true → checkAccess level tier = true

/-! ### What one change does -/

variable {d d' : Directory} {id newID role other profile : String} {fault fault' : Option String}
  {st : Statement} {u u' : UserRow} {r : UserUpdate}

/-- The user has the role and the level they had. -/
structure Same (id : String) (d d' : Directory) : Prop where
  issued : id ∈ d.issued → id ∈ d'.issued
  user : id ∈ d.issued → ∀ u', d'.user id = some u' →
    ∃ u, d.user id = some u ∧ u'.role = u.role ∧ u'.accessLevel = u.accessLevel

theorem Same.of_eq (hissued : d'.issued = d.issued) (husers : d'.users = d.users) :
    Same id d d' := by
  refine ⟨fun h => hissued ▸ h, fun _ u' hu' => ⟨u', ?_, rfl, rfl⟩⟩
  rw [Directory.user, ← husers]
  exact hu'

theorem Same.refl (id : String) (d : Directory) : Same id d d := .of_eq rfl rfl

theorem Same.of_map {f : UserRow → UserRow} (hissued : d'.issued = d.issued)
    (husers : d'.users = d.users.map f) (hid : ∀ u, (f u).id = u.id)
    (hrole : ∀ u, (f u).role = u.role) (hlevel : ∀ u, (f u).accessLevel = u.accessLevel) :
    Same id d d' := by
  refine ⟨fun h => hissued ▸ h, fun _ u' hu' => ?_⟩
  rw [Directory.user, husers, find_map hid] at hu'
  obtain ⟨u, hu, rfl⟩ := map_eq_some_iff.mp hu'
  exact ⟨u, hu, hrole u, hlevel u⟩

theorem createWithAccessLevel_same {username : String} {level : Option Tier}
    {profile : Option String} :
    Same id d (d.createWithAccessLevel fault newID username role level profile).1 := by
  refine exec_induction (Same.refl id d) fun d' h => ?_
  obtain ⟨hnew, husers, hissued⟩ := insertUser_ok h
  refine ⟨fun hid => hissued ▸ mem_cons_of_mem _ hid, fun hid u' hu' => ⟨u', ?_, rfl, rfl⟩⟩
  have hne : newID ≠ id := fun heq => hnew (heq ▸ hid)
  rw [← hu', Directory.user, Directory.user, husers, find, find]
  simp [hne]

theorem deleteUser_same : Same id d (d.deleteUser fault other).1 := by
  refine exec_induction (Same.refl id d) fun d' h => ?_
  cases h
  refine ⟨fun hid => hid, fun _ u' hu' => ⟨u', ?_, rfl, rfl⟩⟩
  have hfind : find UserRow.id id (delete UserRow.id other d.users) = some u' := hu'
  rw [find_delete] at hfind
  split at hfind
  · cases hfind
  · exact hfind

theorem updateProfile_same {profile : Option String} :
    Same id d (d.updateProfile fault other profile).1 := by
  refine exec_induction (Same.refl id d) fun d' h => ?_
  rw [setDefaultProfile] at h
  split at h
  · cases h
    exact .of_map rfl rfl (fun u => by split <;> rfl) (fun u => by split <;> rfl)
      fun u => by split <;> rfl
  · cases h

theorem deleteProfile_same : Same id d (d.deleteProfile fault profile).1 := by
  refine exec_induction (Same.refl id d) fun d' h => ?_
  cases h
  exact .of_map rfl rfl (fun _ => rfl) (fun _ => rfl) fun _ => rfl

theorem createProfile_same : Same id d (d.createProfile fault profile).1 := by
  refine exec_induction (Same.refl id d) fun d' h => ?_
  split at h
  · cases h
  cases h
  exact .of_eq rfl rfl

theorem setPermission_same {p : ProfilePermission} : Same id d (d.setPermission fault p).1 := by
  refine exec_induction (Same.refl id d) fun d' h => ?_
  split at h
  · cases h
    exact .refl id d
  · obtain ⟨-, husers, hissued, -⟩ := insertPermission_ok h
    exact .of_eq hissued husers

theorem bulkSetPermissions_same {profileID serverID : String} {perms : List Endpoint} :
    Same id d (d.bulkSetPermissions fault profileID serverID perms).1 := by
  refine exec_induction (Same.refl id d) fun d' h => ?_
  obtain ⟨-, husers, hissued, -⟩ := insertPermissions_ok h
  exact .of_eq hissued husers

theorem exec_setRole_user (hrole : role = "admin" ∨ role = "user") :
    (exec fault (setRole other role) d).1.user id =
      (d.user id).map fun u =>
        if fault = none ∧ u.id = other then { u with role := role } else u := by
  cases fault with
  | some err => simp [exec]
  | none =>
    simp only [exec, setRole, dif_pos hrole, true_and]
    exact find_map fun u => by split <;> rfl

theorem exec_raiseLevel_user {p : UserRow → Bool} :
    (exec fault (raiseLevel p) d).1.user id =
      (d.user id).map fun u =>
        if fault = none ∧ p u then { u with accessLevel := .admin } else u := by
  cases fault with
  | some err => simp [exec]
  | none =>
    simp only [exec, raiseLevel, true_and]
    exact find_map fun u => by split <;> rfl

theorem exec_issued (hst : ∀ d', st d = .ok d' → d'.issued = d.issued) :
    (exec fault st d).1.issued = d.issued :=
  exec_induction (P := fun d' => d'.issued = d.issued) rfl hst

theorem updateRole_fst :
    (d.updateRole fault fault' other role).1 =
      if role = "admin" then
        (exec fault' (raiseLevel (·.id = other)) (exec fault (setRole other role) d).1).1
      else (exec fault (setRole other role) d).1 := by
  by_cases h : role = "admin" <;> simp [updateRole, h]

theorem updateRole_issued : (d.updateRole fault fault' other role).1.issued = d.issued := by
  have hset : (exec fault (setRole other role) d).1.issued = d.issued := by
    refine exec_issued fun d' h => ?_
    rw [setRole] at h
    split at h
    · cases h
      rfl
    · cases h
  rw [updateRole_fst]
  split
  · refine (exec_issued fun d' h => ?_).trans hset
    cases h
    rfl
  · exact hset

theorem updateRole_user (hrole : role = "admin" ∨ role = "user")
    (hu' : (d.updateRole fault fault' other role).1.user id = some u') :
    ∃ u, d.user id = some u ∧
      u'.role = (if fault = none ∧ id = other then role else u.role) ∧
      u'.accessLevel =
        if fault' = none ∧ id = other ∧ role = "admin" then .admin else u.accessLevel := by
  rw [updateRole_fst] at hu'
  split at hu'
  · next hadmin =>
    rw [exec_raiseLevel_user, exec_setRole_user hrole, Option.map_map] at hu'
    obtain ⟨u, hu, rfl⟩ := Option.map_eq_some_iff.mp hu'
    obtain rfl : u.id = id := key_of_find hu
    refine ⟨u, hu, ?_, ?_⟩ <;> dsimp only [Function.comp] <;> split_ifs <;> simp_all
  next huser =>
  rw [exec_setRole_user hrole] at hu'
  obtain ⟨u, hu, rfl⟩ := map_eq_some_iff.mp hu'
  obtain rfl : u.id = id := key_of_find hu
  refine ⟨u, hu, ?_, ?_⟩ <;> split_ifs <;> simp_all

theorem handleUserUpdate_issued (hid : id ∈ d.issued) : id ∈ (handleUserUpdate r d).issued := by
  refine updateProfile_same.issued ?_
  split
  · rw [updateRole_issued]
    exact hid
  · exact hid

theorem handleUserUpdate_user (hid : id ∈ d.issued)
    (hu' : (handleUserUpdate r d).user id = some u') :
    ∃ u, d.user id = some u ∧
      u'.role = (if (r.role = "admin" ∨ r.role = "user") ∧ r.roleFault = none ∧ id = r.userID then
        r.role else u.role) ∧
      u'.accessLevel = if r.levelFault = none ∧ id = r.userID ∧ r.role = "admin" then .admin
        else u.accessLevel := by
  unfold handleUserUpdate at hu'
  by_cases hrole : r.role = "admin" ∨ r.role = "user"
  · rw [if_pos hrole] at hu'
    have hid' : id ∈ (d.updateRole r.roleFault r.levelFault r.userID r.role).1.issued := by
      rw [updateRole_issued]
      exact hid
    -- the profile is set after the role, and changes neither role nor level
    obtain ⟨u1, hu1, hrole1, hlevel1⟩ := updateProfile_same.user hid' u' hu'
    obtain ⟨u, hu, hrole', hlevel'⟩ := updateRole_user hrole hu1
    refine ⟨u, hu, ?_, hlevel1.trans hlevel'⟩
    rw [hrole1, hrole']
    simp only [hrole, true_and]
  · rw [if_neg hrole] at hu'
    obtain ⟨u, hu, hrole1, hlevel1⟩ := updateProfile_same.user hid u' hu'
    refine ⟨u, hu, ?_, ?_⟩
    · rw [hrole1, if_neg fun h => hrole h.1]
    · rw [hlevel1, if_neg fun h => hrole (.inl h.2.2)]

theorem ensureAdmin_user (hid : id ∈ d.issued)
    (hu' : (d.ensureAdmin fault newID).1.user id = some u') :
    ∃ u, d.user id = some u ∧ u'.role = u.role ∧
      u'.accessLevel = if fault = none ∧ u.role = "admin" then .admin else u.accessLevel := by
  unfold ensureAdmin at hu'
  split at hu'
  · rw [exec_raiseLevel_user] at hu'
    obtain ⟨u, hu, rfl⟩ := map_eq_some_iff.mp hu'
    refine ⟨u, hu, by split <;> rfl, ?_⟩
    by_cases hlevel : u.accessLevel = .admin <;> by_cases hrole : u.role = "admin" <;>
      by_cases hfault : fault = none <;> simp [hlevel, hrole, hfault]
  next hempty =>
  -- without a user there is none with this id, before or after
  obtain ⟨u, hu, -⟩ := createWithAccessLevel_same.user hid u' hu'
  have hpos := length_pos_of_mem (mem_of_find hu)
  omega

theorem ensureAdmin_issued (hid : id ∈ d.issued) : id ∈ (d.ensureAdmin fault newID).1.issued := by
  unfold ensureAdmin
  split
  · rw [exec_issued fun d' h => Except.ok.inj h ▸ rfl]
    exact hid
  · exact createWithAccessLevel_same.issued hid

theorem apply_same (op : Op) (hupdate : ∀ r, op ≠ .userUpdate r)
    (hstart : ∀ fault newID, op ≠ .ensureAdmin fault newID) : Same id d (op.apply d) := by
  cases op with
  | userUpdate r => exact absurd rfl (hupdate r)
  | ensureAdmin fault newID => exact absurd rfl (hstart fault newID)
  | createUser fault newID username role level profile => exact createWithAccessLevel_same
  | deleteUser fault other => exact deleteUser_same
  | createAPIKey fault k =>
    refine exec_induction (Same.refl id d) fun d' h => ?_
    obtain ⟨husers, hissued⟩ := insertKey_ok h
    exact .of_eq hissued husers
  | revokeAPIKey _ _ | removePermission _ _ =>
    refine exec_induction (Same.refl id d) fun d' h => ?_
    cases h
    exact .of_eq rfl rfl
  | createProfile fault profile => exact createProfile_same
  | deleteProfile fault profile => exact deleteProfile_same
  | setPermission fault p => exact setPermission_same
  | bulkSetPermissions fault profileID serverID perms => exact bulkSetPermissions_same

theorem apply_issued (op : Op) (hid : id ∈ d.issued) : id ∈ (op.apply d).issued := by
  cases op with
  | userUpdate r => exact handleUserUpdate_issued hid
  | ensureAdmin fault newID => exact ensureAdmin_issued hid
  | _ => exact (apply_same _ (by simp) (by simp)).issued hid

/-- **What one change does to a user**: only what raises the level changes it, and who is not
promoted keeps the role or is an administrator no more. -/
theorem apply_user (op : Op) (hid : id ∈ d.issued) (hu' : (op.apply d).user id = some u') :
    ∃ u, d.user id = some u ∧
      u'.accessLevel = (if op.raises id d then .admin else u.accessLevel) ∧
      (op.promotes id = false → u'.role = u.role ∨ u'.role = "user") := by
  -- all changes but the form and a start of the relay leave the user alone
  have hsame : Same id d (op.apply d) → op.raises id d = false → ∃ u, d.user id = some u ∧
      u'.accessLevel = (if op.raises id d then .admin else u.accessLevel) ∧
      (op.promotes id = false → u'.role = u.role ∨ u'.role = "user") := by
    intro h hraises
    obtain ⟨u, hu, hrole, hlevel⟩ := h.user hid u' hu'
    exact ⟨u, hu, by simp [hraises, hlevel], fun _ => .inl hrole⟩
  cases op with
  | userUpdate r =>
    obtain ⟨u, hu, hrole, hlevel⟩ := handleUserUpdate_user hid hu'
    refine ⟨u, hu, ?_, fun hpromotes => ?_⟩
    · rw [hlevel]
      simp only [Op.raises, Bool.and_eq_true, decide_eq_true_eq]
      congr 1
      grind
    rw [hrole]
    split
    · next h =>
      simp only [Op.promotes, Bool.and_eq_false_iff, decide_eq_false_iff_not] at hpromotes
      grind
    · exact .inl rfl
  | ensureAdmin fault newID =>
    obtain ⟨u, hu, hrole, hlevel⟩ := ensureAdmin_user hid hu'
    refine ⟨u, hu, ?_, fun _ => .inl hrole⟩
    rw [hlevel]
    simp [Op.raises, hu]
  | _ => exact hsame (apply_same _ (by simp) (by simp)) rfl

/-! ### Whole runs -/

variable {ops later : List Op}

theorem run_append (before after : List Op) (d : Directory) :
    run (before ++ after) d = run after (run before d) := foldl_append

theorem run_issued (hid : id ∈ d.issued) : id ∈ (run ops d).issued := by
  induction ops generalizing d with
  | nil => exact hid
  | cons op ops ih => exact ih (apply_issued op hid)

/-- **The level after a sequence of changes** is the one before it, unless one of them has
raised it. -/
theorem run_level (hid : id ∈ d.issued) (hu' : (run ops d).user id = some u') :
    ∃ u, d.user id = some u ∧
      u'.accessLevel = if raisedIn id d ops then .admin else u.accessLevel := by
  induction ops generalizing d with
  | nil => exact ⟨u', hu', rfl⟩
  | cons op ops ih => ?_
  obtain ⟨u1, hu1, hlevel1⟩ := ih (apply_issued op hid) hu'
  obtain ⟨u, hu, hlevel, -⟩ := apply_user op hid hu1
  refine ⟨u, hu, ?_⟩
  rw [hlevel1, hlevel, raisedIn]
  by_cases h : raisedIn id (op.apply d) ops <;> by_cases h' : op.raises id d <;> simp [h, h']

theorem run_user (hid : id ∈ d.issued) (hrole : ∀ u, d.user id = some u → u.role = "user")
    (hops : ∀ op ∈ ops, op.promotes id = false) :
    raisedIn id d ops = false ∧ ∀ u', (run ops d).user id = some u' → u'.role = "user" := by
  induction ops generalizing d with
  | nil => exact ⟨rfl, hrole⟩
  | cons op ops ih => ?_
  have hop := hops op mem_cons_self
  -- levels are raised by a promotion, or at a start by the role, and there is neither
  have hraises : op.raises id d = false := by
    cases op with
    | userUpdate r =>
      simp only [Op.promotes, Op.raises] at hop ⊢
      rw [hop, Bool.false_and]
    | ensureAdmin fault newID =>
      cases hu : d.user id with
      | none => simp [Op.raises, hu]
      | some u => simp [Op.raises, hu, hrole u hu]
    | _ => rfl
  have hrole' : ∀ u, (op.apply d).user id = some u → u.role = "user" := by
    intro u1 hu1
    obtain ⟨u, hu, -, hkeep⟩ := apply_user op hid hu1
    exact (hkeep hop).elim (fun h => h.trans (hrole u hu)) fun h => h
  rw [raisedIn, hraises, Bool.false_or]
  exact ih (apply_issued op hid) hrole' fun op' h => hops op' (List.mem_cons_of_mem _ h)

theorem raisedIn_append (before after : List Op) :
    raisedIn id d (before ++ after) =
      (raisedIn id d before || raisedIn id (run before d) after) := by
  induction before generalizing d with
  | nil => simp [raisedIn, run]
  | cons op before ih =>
    rw [List.cons_append, raisedIn, ih, raisedIn, Bool.or_assoc]
    rfl

theorem heldBefore_eq {level l : Tier} {held : Option Tier} (hid : id ∈ d.issued)
    (hu : ∀ u, d.user id = some u → u.accessLevel = level) (hraised : raisedIn id d ops = false)
    (hheld : ∀ l, held = some l → l = level) (hl : heldBefore id held d ops = some l) :
    l = level := by
  induction ops generalizing d held with
  | nil => exact hheld l hl
  | cons op ops ih => ?_
  rw [raisedIn, Bool.or_eq_false_iff] at hraised
  refine ih (apply_issued op hid) (fun u1 hu1 => ?_) hraised.2 (fun l' hl' => ?_) hl
  · obtain ⟨u, hu', hlevel, -⟩ := apply_user op hid hu1
    rw [hlevel, hraised.1]
    exact hu u hu'
  split at hl'
  · exact hheld l' hl'
  next u hu' =>
  split at hl'
  · rw [← some.inj hl']
    exact hu u hu'
  · exact hheld l' hl'

/-- **A demotion removes the powers of management if and only if the user never had them**:
whatever has been done to the tables before, and whatever is done later short of another
promotion, a request with a key of the user is denied, and held to the level of before the
promotion, if and only if the level was not that of administrators at the beginning and
nothing has raised it. -/
theorem demotion_denies_iff (hash : String → String) (d : Directory) (id : String) (u₀ : UserRow)
    (hu₀ : d.user id = some u₀) (before later : List Op) (r : UserUpdate) (hr : r.userID = id)
    (hrole : r.role = "user") (hset : r.roleFault = none)
    (hlater : ∀ op ∈ later, op.promotes id = false) (rawKey : String) (user : User) (key : APIKey)
    (hkey : validateAPIKey hash rawKey (run (before ++ .userUpdate r :: later) d) =
      some (user, key)) (huser : key.userID = id) :
    Demoted (heldBefore id none d (before ++ .userUpdate r :: later)) user ↔
      u₀.accessLevel ≠ .admin ∧ raisedIn id d before = false := by
  have hid : id ∈ d.issued :=
    key_of_find hu₀ ▸ d.userIssued u₀ (mem_of_find hu₀)
  obtain ⟨-, -, u, hu, rfl⟩ := validateAPIKey_eq_some.mp hkey
  rw [huser] at hu
  -- after the demotion the role is that of a user, and nothing raises the level
  have hid1 : id ∈ (run before d).issued := run_issued hid
  have hdemoted : ∀ u, (handleUserUpdate r (run before d)).user id = some u → u.role = "user" := by
    intro u1 hu1
    obtain ⟨u2, -, hrole1, -⟩ := handleUserUpdate_user hid1 hu1
    simpa [hr, hrole, hset] using hrole1
  obtain ⟨hquiet, hlast⟩ := run_user (handleUserUpdate_issued hid1) hdemoted hlater
  have hraised : raisedIn id d (before ++ .userUpdate r :: later) = raisedIn id d before := by
    rw [raisedIn_append, raisedIn]
    have hop : (Op.userUpdate r).raises id (run before d) = false := by simp [Op.raises, hrole]
    rw [hop, Bool.false_or]
    exact (congrArg _ hquiet).trans (Bool.or_false _)
  obtain ⟨u0', hu0', hlevel⟩ := run_level hid hu
  obtain rfl : u₀ = u0' := some.inj (hu₀.symm.trans hu0')
  rw [hraised] at hlevel
  refine ⟨fun h => ?_, fun ⟨hne, hnot⟩ => ?_⟩
  · have hne : u.accessLevel ≠ .admin := requireAdminAccess_isSome.mp h.denied
    rw [hlevel] at hne
    cases hb : raisedIn id d before with
    | true => simp [hb] at hne
    | false => exact ⟨by simpa [hb] using hne, rfl⟩
  rw [hnot] at hlevel hraised
  have hlevel' : u.accessLevel = u₀.accessLevel := hlevel
  have hrow : u.role = "user" := hlast u (by rw [← hu, run_append]; rfl)
  refine ⟨requireAdminAccess_isSome.mpr (hlevel' ▸ hne), ?_, fun l hl tier htier => ?_⟩
  · show u.role ≠ "admin"
    rw [hrow]
    decide
  have hl' : l = u₀.accessLevel := heldBefore_eq hid
    (fun u' hu' => congrArg _ (some.inj (hu'.symm.trans hu₀))) hraised (by simp) hl
  rw [hl', ← hlevel']
  exact htier

/-- One user with one key. -/
def demoDirectory (role : String) (level : Tier) (hrole : role = "admin" ∨ role = "user") :
    Directory where
  users := [⟨"u1", "agent", role, level, none⟩]
  keys := [{ id := "k1", userID := "u1", keyHash := "secret" }]
  profiles := []
  servers := []
  permissions := []
  issued := ["u1"]
  userIDs := by simp
  usernames := by simp
  userIssued := by simp
  userRoles := by simpa using hrole
  userProfiles := by simp
  keyIDs := by simp
  keyUsers := by simp
  keyProfiles := by simp
  permissionKeys := by simp
  permissionProfiles := by simp
  permissionServers := by simp

theorem demotion_denies_iff_write :
    let d := demoDirectory "admin" .write (.inl rfl)
    let ops : List Op := [.userUpdate { userID := "u1", role := "user" }, .ensureAdmin none "u2"]
    validateAPIKey (fun k => k) "secret" (run ops d) =
        some (⟨"user", .write, none⟩, { id := "k1", userID := "u1", keyHash := "secret" }) ∧
      Demoted (heldBefore "u1" none d ops) ⟨"user", .write, none⟩ := by
  intro d ops
  have hkey : validateAPIKey (fun k => k) "secret" (run ops d) =
      some (⟨"user", .write, none⟩, { id := "k1", userID := "u1", keyHash := "secret" }) := by
    decide +kernel
  refine ⟨hkey, (demotion_denies_iff (fun k => k) d "u1" ⟨"u1", "agent", "admin", .write, none⟩
    rfl [] [.ensureAdmin none "u2"] { userID := "u1", role := "user" } rfl rfl rfl
    (by simp [Op.promotes]) "secret" _ _ hkey rfl).mpr ⟨by decide, rfl⟩⟩

/-- A user who may only read is promoted and demoted again, and can manage servers. -/
theorem demoted_manages :
    let d := demoDirectory "user" .read (.inr rfl)
    let ops : List Op := [.userUpdate { userID := "u1", role := "admin" },
      .userUpdate { userID := "u1", role := "user" }]
    let user : User := ⟨"user", .admin, none⟩
    validateAPIKey (fun k => k) "secret" (run ops d) =
        some (user, { id := "k1", userID := "u1", keyHash := "secret" }) ∧
      heldBefore "u1" none d ops = some .read ∧ requireAdminAccess (some user) = none ∧
      ¬ Demoted (heldBefore "u1" none d ops) user := by
  intro d ops user
  refine ⟨by decide +kernel, by decide +kernel, rfl, fun h => ?_⟩
  have hdenied := h.denied
  cases hdenied

end ArcRelay.Access
