import ArcRelay.Access.Store

/-!
# Users, API keys and profiles

The tables behind every request (`internal/store/users.go`, `internal/store/profiles.go`).
A user has a role, an access level and perhaps a default profile; an API key belongs to a
user and may have a profile of its own; a profile lists what it permits.  A request with a
key is judged as the user with the profile that is in force: that of the key, or else the
default of the user, or else none.

The constraints of the schema are fields of `Directory`: primary keys, the checks on roles
and the foreign keys.  What a foreign key does when the row it refers to is deleted is part
of the statement that deletes it.
-/

namespace ArcRelay.Access

open List

/-- A row of `users`. -/
structure UserRow where
  id : String
  username : String
  role : String
  accessLevel : Tier
  defaultProfileID : Option String := none

/-- A row of `api_keys`. -/
structure APIKey where
  id : String
  userID : String
  keyHash : String
  profileID : Option String := none
  revoked : Bool := false
  capabilities : List String := []
  deriving DecidableEq

def legacyCapabilityGrants (c : String) : List String :=
  if c = "skills:write" then ["skills:publish"]
  else if c = "recipes:write" then ["recipes:publish"]
  else []

def APIKey.hasCapability (k : APIKey) (cap : String) : Bool :=
  k.capabilities.any fun c => c = cap || (legacyCapabilityGrants c).any (· = cap)

structure Directory where
  users : List UserRow
  keys : List APIKey
  profiles : List String
  servers : List String
  permissions : List ProfilePermission
  /-- The ids of users so far; `uuid.New` gives none of them again. -/
  issued : List String
  userIDs : (users.map UserRow.id).Nodup
  usernames : (users.map UserRow.username).Nodup
  userIssued : ∀ u ∈ users, u.id ∈ issued
  userRoles : ∀ u ∈ users, u.role = "admin" ∨ u.role = "user"
  userProfiles : ∀ u ∈ users, ∀ p, u.defaultProfileID = some p → p ∈ profiles
  keyIDs : (keys.map APIKey.id).Nodup
  keyUsers : ∀ k ∈ keys, k.userID ∈ users.map UserRow.id
  keyProfiles : ∀ k ∈ keys, ∀ p, k.profileID = some p → p ∈ profiles
  permissionKeys : permissions.Nodup
  permissionProfiles : ∀ p ∈ permissions, p.profileID ∈ profiles
  permissionServers : ∀ p ∈ permissions, p.serverID ∈ servers

/-- A statement, with the constraint it violates. -/
abbrev Statement := Directory → Except String Directory

/-- A statement that is executed, or fails for a reason of the database's own.  What fails
changes nothing. -/
def exec (fault : Option String) (st : Statement) (d : Directory) : Directory × Option String :=
  match fault with
  | some err => (d, some err)
  | none =>
    match st d with
    | .error err => (d, some err)
    | .ok d' => (d', none)

theorem exec_induction {P : Directory → Prop} {fault : Option String} {st : Statement}
    {d : Directory} (hd : P d) (hst : ∀ d', st d = .ok d' → P d') : P (exec fault st d).1 := by
  unfold exec
  cases fault with
  | some err => exact hd
  | none => ?_
  cases h : st d with
  | error err => exact hd
  | ok d' => exact hst d' h

def foreignKeyFailed : String := "FOREIGN KEY constraint failed"

namespace Directory

def user (d : Directory) (id : String) : Option UserRow := Table.find UserRow.id id d.users

/-! ### Users -/

/-- An update of users that leaves their ids and names alone. -/
def mapUsers (d : Directory) (f : UserRow → UserRow) (hid : ∀ u, (f u).id = u.id)
    (hname : ∀ u, (f u).username = u.username)
    (hrole : ∀ u, (f u).role = u.role ∨ (f u).role = "admin" ∨ (f u).role = "user")
    (hprofile : ∀ u p, (f u).defaultProfileID = some p →
      u.defaultProfileID = some p ∨ p ∈ d.profiles) : Directory :=
  have hids : (d.users.map f).map UserRow.id = d.users.map UserRow.id := by
    simp [Function.comp_def, hid]
  { d with
    users := d.users.map f
    userIDs := hids ▸ d.userIDs
    usernames := by
      have hnames : (d.users.map f).map UserRow.username = d.users.map UserRow.username := by
        simp [Function.comp_def, hname]
      exact hnames ▸ d.usernames
    userIssued := by
      intro u hu
      obtain ⟨u', hu', rfl⟩ := mem_map.mp hu
      rw [hid]
      exact d.userIssued u' hu'
    userRoles := by
      intro u hu
      obtain ⟨u', hu', rfl⟩ := mem_map.mp hu
      rcases hrole u' with h | h
      · rw [h]
        exact d.userRoles u' hu'
      · exact h
    userProfiles := by
      intro u hu p hp
      obtain ⟨u', hu', rfl⟩ := mem_map.mp hu
      exact (hprofile u' p hp).elim (d.userProfiles u' hu' p) id
    keyUsers := hids ▸ d.keyUsers }

/-- `UPDATE users SET role = ? WHERE id = ?`. -/
def setRole (id role : String) : Statement := fun d =>
  if hrole : role = "admin" ∨ role = "user" then
    .ok (d.mapUsers (fun u => if u.id = id then { u with role := role } else u)
      (fun u => by split <;> rfl) (fun u => by split <;> rfl)
      (fun u => by
        split
        · exact .inr hrole
        · exact .inl rfl)
      (fun u p hp => .inl (by split at hp <;> exact hp)))
  else .error "CHECK constraint failed: role IN ('admin', 'user')"

/-- `UPDATE users SET access_level = 'admin'` where a condition holds. -/
def raiseLevel (p : UserRow → Bool) : Statement := fun d =>
  .ok (d.mapUsers (fun u => if p u then { u with accessLevel := .admin } else u)
    (fun u => by split <;> rfl) (fun u => by split <;> rfl)
    (fun u => .inl (by split <;> rfl))
    (fun u p hp => .inl (by split at hp <;> exact hp)))

/-- `UPDATE users SET default_profile_id = ? WHERE id = ?`. -/
def setDefaultProfile (id : String) (profileID : Option String) : Statement := fun d =>
  if hp : ∀ p, profileID = some p → p ∈ d.profiles then
    .ok (d.mapUsers (fun u => if u.id = id then { u with defaultProfileID := profileID } else u)
      (fun u => by split <;> rfl) (fun u => by split <;> rfl)
      (fun u => .inl (by split <;> rfl))
      (fun u p hu => by
        split at hu
        · exact .inr (hp p hu)
        · exact .inl hu))
  else .error foreignKeyFailed

/-- `INSERT INTO users`. -/
def insertUser (u : UserRow) : Statement := fun d =>
  if hid : u.id ∈ d.issued then .error "UNIQUE constraint failed: users.id"
  else if hname : u.username ∈ d.users.map UserRow.username then
    .error "UNIQUE constraint failed: users.username"
  else if hrole : u.role = "admin" ∨ u.role = "user" then
    if hp : ∀ p, u.defaultProfileID = some p → p ∈ d.profiles then
      .ok
        { d with
          users := u :: d.users
          issued := u.id :: d.issued
          userIDs := nodup_cons.mpr ⟨fun hmem => by
            obtain ⟨u', hu', heq⟩ := mem_map.mp hmem
            exact hid (heq ▸ d.userIssued u' hu'), d.userIDs⟩
          usernames := nodup_cons.mpr ⟨hname, d.usernames⟩
          userIssued := forall_mem_cons.mpr
            ⟨mem_cons_self, fun u' hu' => mem_cons_of_mem _ (d.userIssued u' hu')⟩
          userRoles := forall_mem_cons.mpr ⟨hrole, d.userRoles⟩
          userProfiles := forall_mem_cons.mpr ⟨hp, d.userProfiles⟩
          keyUsers := fun k hk => mem_cons_of_mem _ (d.keyUsers k hk) }
    else .error foreignKeyFailed
  else .error "CHECK constraint failed: role IN ('admin', 'user')"

variable {d d' : Directory}

theorem insertUser_ok {u : UserRow} (h : insertUser u d = .ok d') :
    u.id ∉ d.issued ∧ d'.users = u :: d.users ∧ d'.issued = u.id :: d.issued := by
  unfold insertUser at h
  split at h
  · cases h
  next hid =>
  split at h
  · cases h
  split at h
  · split at h
    · cases h
      exact ⟨hid, rfl, rfl⟩
    · cases h
  · cases h

/-- `DELETE FROM users WHERE id = ?`; the keys of the user go with it. -/
def deleteUserRow (id : String) : Statement := fun d =>
  .ok
    { d with
      users := Table.delete UserRow.id id d.users
      keys := d.keys.filter fun k => k.userID ≠ id
      userIDs := Table.nodup_delete d.userIDs
      usernames := d.usernames.sublist (filter_sublist.map _)
      userIssued := fun u hu => d.userIssued u (mem_of_mem_filter hu)
      userRoles := fun u hu => d.userRoles u (mem_of_mem_filter hu)
      userProfiles := fun u hu => d.userProfiles u (mem_of_mem_filter hu)
      keyIDs := d.keyIDs.sublist (filter_sublist.map _)
      keyUsers := by
        intro k hk
        obtain ⟨hmem, hne⟩ := mem_filter.mp hk
        obtain ⟨u, hu, heq⟩ := mem_map.mp (d.keyUsers k hmem)
        refine mem_map.mpr ⟨u, mem_filter.mpr ⟨hu, ?_⟩, heq⟩
        rw [heq]
        exact hne
      keyProfiles := fun k hk => d.keyProfiles k (mem_of_mem_filter hk) }

/-- Administrators get the level of administrators; without a level it is `write`. -/
def createWithAccessLevel (fault : Option String) (id username role : String)
    (accessLevel : Option Tier) (defaultProfileID : Option String) (d : Directory) :
    Directory × Option String :=
  let level := if role = "admin" then .admin else accessLevel.getD .write
  let (d', err) := exec fault (insertUser ⟨id, username, role, level, defaultProfileID⟩) d
  (d', err.map ("creating user: " ++ ·))

/-- The second statement is executed whether the first has failed or not, and its own
failure is passed over. -/
def updateRole (fault fault' : Option String) (id role : String) (d : Directory) :
    Directory × Option String :=
  let (d', err) := exec fault (setRole id role) d
  if role = "admin" then ((exec fault' (raiseLevel (·.id = id)) d').1, err) else (d', err)

def updateProfile (fault : Option String) (id : String) (defaultProfileID : Option String)
    (d : Directory) : Directory × Option String :=
  exec fault (setDefaultProfile id defaultProfileID) d

def deleteUser (fault : Option String) (id : String) (d : Directory) : Directory × Option String :=
  exec fault (deleteUserRow id) d

/-- At every start: the level of administrators is set, or the first one is created. -/
def ensureAdmin (fault : Option String) (id : String) (d : Directory) : Directory × Option String :=
  if 0 < d.users.length then
    ((exec fault (raiseLevel fun u => u.role = "admin" && u.accessLevel ≠ .admin) d).1, none)
  else createWithAccessLevel fault id "admin" "admin" none none d

/-! ### API keys -/

/-- `INSERT INTO api_keys`. -/
def insertKey (k : APIKey) : Statement := fun d =>
  if hid : k.id ∈ d.keys.map APIKey.id then .error "UNIQUE constraint failed: api_keys.id"
  else if huser : k.userID ∈ d.users.map UserRow.id then
    if hp : ∀ p, k.profileID = some p → p ∈ d.profiles then
      .ok
        { d with
          keys := k :: d.keys
          keyIDs := nodup_cons.mpr ⟨hid, d.keyIDs⟩
          keyUsers := forall_mem_cons.mpr ⟨huser, d.keyUsers⟩
          keyProfiles := forall_mem_cons.mpr ⟨hp, d.keyProfiles⟩ }
    else .error foreignKeyFailed
  else .error foreignKeyFailed

theorem insertKey_ok {k : APIKey} (h : insertKey k d = .ok d') :
    d'.users = d.users ∧ d'.issued = d.issued := by
  unfold insertKey at h
  split at h
  · cases h
  split at h
  · split at h
    · cases h
      exact ⟨rfl, rfl⟩
    · cases h
  · cases h

/-- An update of keys that leaves their ids and users alone, and adds no profile. -/
def mapKeys (d : Directory) (f : APIKey → APIKey) (hid : ∀ k, (f k).id = k.id)
    (huser : ∀ k, (f k).userID = k.userID)
    (hprofile : ∀ k p, (f k).profileID = some p → k.profileID = some p) : Directory :=
  { d with
    keys := d.keys.map f
    keyIDs := by
      have hids : (d.keys.map f).map APIKey.id = d.keys.map APIKey.id := by
        simp [Function.comp_def, hid]
      exact hids ▸ d.keyIDs
    keyUsers := by
      intro k hk
      obtain ⟨k', hk', rfl⟩ := mem_map.mp hk
      rw [huser]
      exact d.keyUsers k' hk'
    keyProfiles := by
      intro k hk p hp
      obtain ⟨k', hk', rfl⟩ := mem_map.mp hk
      exact d.keyProfiles k' hk' p (hprofile k' p hp) }

def createAPIKey (fault : Option String) (k : APIKey) (d : Directory) : Directory × Option String :=
  let (d', err) := exec fault (insertKey k) d
  (d', err.map ("creating api key: " ++ ·))

def revokeAPIKey (fault : Option String) (id : String) (d : Directory) :
    Directory × Option String :=
  exec fault (fun d => .ok (d.mapKeys (fun k => if k.id = id then { k with revoked := true } else k)
    (fun k => by split <;> rfl) (fun k => by split <;> rfl)
    (fun k p hp => by split at hp <;> exact hp))) d

/-! ### Profiles -/

/-- `INSERT INTO agent_profiles`. -/
def createProfile (fault : Option String) (id : String) (d : Directory) :
    Directory × Option String :=
  exec fault (fun d =>
    if id ∈ d.profiles then .error "creating profile: UNIQUE constraint failed: agent_profiles.id"
    else
      .ok
        { d with
          profiles := id :: d.profiles
          userProfiles := fun u hu p hp => mem_cons_of_mem _ (d.userProfiles u hu p hp)
          keyProfiles := fun k hk p hp => mem_cons_of_mem _ (d.keyProfiles k hk p hp)
          permissionProfiles := fun p hp =>
            mem_cons_of_mem _ (d.permissionProfiles p hp) }) d

def filterPermissions (d : Directory) (keep : ProfilePermission → Bool) : Directory :=
  { d with
    permissions := d.permissions.filter keep
    permissionKeys := d.permissionKeys.filter _
    permissionProfiles := fun p hp => d.permissionProfiles p (mem_of_mem_filter hp)
    permissionServers := fun p hp => d.permissionServers p (mem_of_mem_filter hp) }

/-- A reference that `ON DELETE SET NULL` takes away. -/
def setNull (id : String) (profileID : Option String) : Option String :=
  if profileID = some id then none else profileID

theorem setNull_eq_some {id p : String} {profileID : Option String}
    (h : setNull id profileID = some p) : profileID = some p ∧ p ≠ id := by
  unfold setNull at h
  split at h
  · cases h
  next hne =>
  refine ⟨h, ?_⟩
  rintro rfl
  exact hne h

/-- What the foreign keys do when a profile goes: its permissions go too, and no user or
key refers to it any more. -/
def unlinkProfile (d : Directory) (id : String) : Directory :=
  ((d.mapUsers (fun u => { u with defaultProfileID := setNull id u.defaultProfileID })
      (fun _ => rfl) (fun _ => rfl) (fun _ => .inl rfl)
      (fun _ _ hp => .inl (setNull_eq_some hp).1)).mapKeys
    (fun k => { k with profileID := setNull id k.profileID }) (fun _ => rfl) (fun _ => rfl)
    (fun _ _ hp => (setNull_eq_some hp).1)).filterPermissions fun p => p.profileID ≠ id

/-- `DELETE FROM agent_profiles WHERE id = ?`. -/
def deleteProfile (fault : Option String) (id : String) (d : Directory) :
    Directory × Option String :=
  exec fault (fun d =>
    let d' := d.unlinkProfile id
    .ok
      { d' with
        profiles := d.profiles.filter (· ≠ id)
        userProfiles := by
          intro u hu p hp
          obtain ⟨u', hu', rfl⟩ := mem_map.mp hu
          obtain ⟨hp', hne⟩ := setNull_eq_some hp
          exact mem_filter.mpr ⟨d.userProfiles u' hu' p hp', by simpa using hne⟩
        keyProfiles := by
          intro k hk p hp
          obtain ⟨k', hk', rfl⟩ := mem_map.mp hk
          obtain ⟨hp', hne⟩ := setNull_eq_some hp
          exact mem_filter.mpr ⟨d.keyProfiles k' hk' p hp', by simpa using hne⟩
        permissionProfiles := by
          intro p hp
          obtain ⟨hmem, hne⟩ := mem_filter.mp hp
          exact mem_filter.mpr ⟨d.permissionProfiles p hmem, hne⟩ }) d

/-- `INSERT INTO profile_permissions`. -/
def insertPermission (p : ProfilePermission) : Statement := fun d =>
  if hmem : p ∈ d.permissions then .error "UNIQUE constraint failed: profile_permissions"
  else if href : p.profileID ∈ d.profiles ∧ p.serverID ∈ d.servers then
    .ok
      { d with
        permissions := p :: d.permissions
        permissionKeys := nodup_cons.mpr ⟨hmem, d.permissionKeys⟩
        permissionProfiles := forall_mem_cons.mpr ⟨href.1, d.permissionProfiles⟩
        permissionServers := forall_mem_cons.mpr ⟨href.2, d.permissionServers⟩ }
  else .error foreignKeyFailed

theorem insertPermission_ok {p : ProfilePermission} (h : insertPermission p d = .ok d') :
    d'.permissions = p :: d.permissions ∧ d'.users = d.users ∧ d'.issued = d.issued ∧
      d'.keys = d.keys := by
  unfold insertPermission at h
  split at h
  · cases h
  split at h
  · cases h
    exact ⟨rfl, rfl, rfl, rfl⟩
  · cases h

/-- `INSERT OR IGNORE`: a permission that is there already is passed over. -/
def setPermission (fault : Option String) (p : ProfilePermission) (d : Directory) :
    Directory × Option String :=
  exec fault (fun d => if p ∈ d.permissions then .ok d else insertPermission p d) d

def removePermission (fault : Option String) (p : ProfilePermission) (d : Directory) :
    Directory × Option String :=
  exec fault (fun d => .ok (d.filterPermissions (· ≠ p))) d

def insertPermissions (profileID serverID : String) : List Endpoint → Statement
  | [], d => .ok d
  | e :: es, d =>
    match insertPermission ⟨profileID, serverID, e⟩ d with
    | .error err => .error ("inserting permission: " ++ err)
    | .ok d' => insertPermissions profileID serverID es d'

theorem insertPermissions_ok {profileID serverID : String} {es : List Endpoint}
    (h : insertPermissions profileID serverID es d = .ok d') :
    (∀ p, p ∈ d'.permissions ↔
      p ∈ d.permissions ∨ ∃ e ∈ es, p = ⟨profileID, serverID, e⟩) ∧
      d'.users = d.users ∧ d'.issued = d.issued ∧ d'.keys = d.keys := by
  induction es generalizing d with
  | nil =>
    cases h
    simp
  | cons e es ih => ?_
  rw [insertPermissions] at h
  split at h
  · cases h
  next d1 hd1 =>
  obtain ⟨hperms, husers, hissued, hkeys⟩ := insertPermission_ok hd1
  obtain ⟨hmem, husers', hissued', hkeys'⟩ := ih h
  refine ⟨fun p => ?_, husers'.trans husers, hissued'.trans hissued, hkeys'.trans hkeys⟩
  rw [hmem, hperms, mem_cons, or_comm (a := p = _), or_assoc]
  simp

def bulkSetPermissions (fault : Option String) (profileID serverID : String)
    (perms : List Endpoint) (d : Directory) : Directory × Option String :=
  exec fault (fun d =>
    insertPermissions profileID serverID perms
      (d.filterPermissions fun p => ¬ (p.profileID = profileID ∧ p.serverID = serverID))) d

/-! ### Requests -/

/-- The user a key stands for, with the profile that is in force, and the key. -/
def validateAPIKey (hash : String → String) (rawKey : String) (d : Directory) :
    Option (User × APIKey) :=
  match d.keys.find? fun k => k.keyHash = hash rawKey with
  | none => none
  | some k =>
    if k.revoked then none
    else
      match d.user k.userID with
      | none => none
      | some u => some (⟨u.role, u.accessLevel, k.profileID.or u.defaultProfileID⟩, k)

theorem validateAPIKey_eq_some {hash : String → String} {rawKey : String} {user : User}
    {key : APIKey} :
    validateAPIKey hash rawKey d = some (user, key) ↔
      (d.keys.find? fun k => k.keyHash = hash rawKey) = some key ∧ key.revoked = false ∧
        ∃ u, d.user key.userID = some u ∧
          user = ⟨u.role, u.accessLevel, key.profileID.or u.defaultProfileID⟩ := by
  unfold validateAPIKey
  cases d.keys.find? fun k => k.keyHash = hash rawKey with
  | none => simp
  | some k => ?_
  by_cases hrevoked : k.revoked
  · simp only [hrevoked, if_true]
    refine ⟨nofun, fun ⟨hk, hr, _⟩ => ?_⟩
    rw [← Option.some.inj hk, hrevoked] at hr
    cases hr
  simp only [hrevoked, Bool.false_eq_true, if_false]
  cases hu : d.user k.userID with
  | none =>
    refine ⟨nofun, fun ⟨hk, _, u, hu', _⟩ => ?_⟩
    rw [← Option.some.inj hk, hu] at hu'
    cases hu'
  | some u => ?_
  refine ⟨fun h => ?_, fun ⟨hk, _, u', hu', huser⟩ => ?_⟩
  · obtain ⟨rfl, rfl⟩ := Prod.mk.inj (Option.some.inj h)
    exact ⟨rfl, by simpa using hrevoked, u, hu, rfl⟩
  cases hk
  obtain rfl := Option.some.inj (hu.symm.trans hu')
  rw [huser]

end Directory

def requireAdminAccess : Option User → Option (ℕ × String)
  | none => some (401, "\x7b\"error\":\"authentication required\"\x7d")
  | some user =>
    if user.accessLevel ≠ .admin then some (403, "\x7b\"error\":\"admin access required\"\x7d")
    else none

theorem requireAdminAccess_isSome {user : User} :
    (requireAdminAccess (some user)).isSome = true ↔ user.accessLevel ≠ .admin := by
  rw [requireAdminAccess]
  split <;> simp_all

/-- The form of `handleUserUpdate`, and what fails of its statements. -/
structure UserUpdate where
  userID : String
  role : String
  /-- The profile of the form, trimmed; an empty one is none. -/
  defaultProfileID : Option String := none
  roleFault : Option String := none
  levelFault : Option String := none
  profileFault : Option String := none

/-- The role, if it is one of the two, then the profile.  Errors are passed over. -/
def handleUserUpdate (r : UserUpdate) (d : Directory) : Directory :=
  let d' :=
    if r.role = "admin" ∨ r.role = "user" then
      (d.updateRole r.roleFault r.levelFault r.userID r.role).1
    else d
  (d'.updateProfile r.profileFault r.userID r.defaultProfileID).1

end ArcRelay.Access
