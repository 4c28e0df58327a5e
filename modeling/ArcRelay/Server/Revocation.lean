import ArcRelay.Access.Directory
import ArcRelay.Server.Proxy

/-!
# Taking permissions away

A profile that is deleted takes its permissions with it, but not the denials: keys and
users that had the profile are judged without it from then on, by the default profile of
the user or by the tiers, and these may permit what the profile did not.  The page that
deletes a profile says so.  Whatever else takes permissions away leaves every denial in
place.

`removal_denied` says both.  `deletion_permits` is a key that gains a tool when its profile
is deleted.
-/

namespace ArcRelay.Proxy

open Access Access.Directory Mcp Option List

/-- What an administrator does to take a permission away, and the fault it meets. -/
inductive Removal where
  | deleteProfile (fault : Option String) (id : String)
  | removePermission (fault : Option String) (p : ProfilePermission)
  | bulkSetPermissions (fault : Option String) (profileID serverID : String) (perms : List Endpoint)

/-- The directory after it. -/
def Removal.apply (d : Directory) : Removal → Directory
  | .deleteProfile fault id => (d.deleteProfile fault id).1
  | .removePermission fault p => (d.removePermission fault p).1
  | .bulkSetPermissions fault profileID serverID perms =>
    (d.bulkSetPermissions fault profileID serverID perms).1

/-- It grants nothing new. -/
def Removal.OnlyTakes (d : Directory) : Removal → Prop
  | .bulkSetPermissions _ profileID serverID perms =>
    ∀ e ∈ perms, (⟨profileID, serverID, e⟩ : ProfilePermission) ∈ d.permissions
  | _ => True

/-- It deletes the profile. -/
def Removal.Deletes (profileID : Option String) : Removal → Prop
  | .deleteProfile fault id => fault = none ∧ profileID = some id
  | _ => False

/-- A request is answered with the permissions of the directory. -/
def serve (s : Server) (d : Directory) : Server := { s with permissions := d.permissions }

/-- The profile of a key once a profile is deleted. -/
def fallback (id : String) (key : APIKey) (u : UserRow) : Option String :=
  (setNull id key.profileID).or (setNull id u.defaultProfileID)

theorem checkPermission_iff {permissions : List ProfilePermission} {profileID serverID : String}
    {e : Endpoint} :
    checkPermission permissions profileID serverID e = true ↔
      ⟨profileID, serverID, e⟩ ∈ permissions := by
  simp [checkPermission, countP_pos_iff]

variable {id : String} {key : APIKey} {u : UserRow}

theorem fallback_ne {p : String} (h : fallback id key u = some p) : p ≠ id := by
  rcases or_eq_some_iff.mp h with hkey | ⟨-, huser⟩
  · exact (setNull_eq_some hkey).2
  · exact (setNull_eq_some huser).2

theorem fallback_eq (h : key.profileID.or u.defaultProfileID ≠ some id) :
    fallback id key u = key.profileID.or u.defaultProfileID := by
  unfold fallback
  cases hkey : key.profileID with
  | some p =>
    rw [hkey, some_or] at h
    rw [setNull, if_neg h]
    rfl
  | none =>
    rw [hkey, none_or] at h
    rw [setNull, setNull, if_neg nofun, if_neg h]

variable {s : Server} {d d' : Directory} {user : User} {serverID msg : String} {r : Request}

theorem checkEndpointAccess_profile {profileID : String} (hp : user.profileID = some profileID) :
    checkEndpointAccess (serve s d) user serverID r = some msg ↔
      user.role ≠ "admin" ∧ msg = "access denied: not permitted by profile" ∧
        ∃ e, extractEndpointName r.message = some e ∧ e.name ≠ "" ∧
          ⟨profileID, serverID, e⟩ ∉ d.permissions := by
  unfold checkEndpointAccess
  rw [hp]
  by_cases hrole : user.role = "admin"
  · simp [hrole]
  rw [if_neg hrole]
  cases extractEndpointName r.message with
  | none => simp
  | some e => ?_
  by_cases hname : e.name = ""
  · simp [hname]
  by_cases hperm : checkPermission d.permissions profileID serverID e = true
  · have hmem := checkPermission_iff.mp hperm
    simp [serve, hname, hperm, hmem]
  have hmem := fun h => hperm (checkPermission_iff.mpr h)
  simp only [serve, hname, hperm, Bool.false_eq_true, if_false, some.injEq]
  refine ⟨fun h => ⟨hrole, h.symm, e, rfl, hname, hmem⟩, fun h => h.2.1.symm⟩

theorem checkEndpointAccess_tier (hp : user.profileID = none) :
    checkEndpointAccess (serve s d') user serverID r =
      checkEndpointAccess (serve s d) user serverID r := by
  unfold checkEndpointAccess
  rw [hp]
  rfl

theorem denied_of_subset (hsub : ∀ p ∈ d'.permissions, p ∈ d.permissions)
    (h : checkEndpointAccess (serve s d) user serverID r = some msg) :
    checkEndpointAccess (serve s d') user serverID r = some msg := by
  cases hp : user.profileID with
  | none =>
    rw [checkEndpointAccess_tier hp]
    exact h
  | some profileID =>
    rw [checkEndpointAccess_profile hp] at h ⊢
    obtain ⟨hrole, hmsg, e, he, hname, hmem⟩ := h
    exact ⟨hrole, hmsg, e, he, hname, fun h => hmem (hsub _ h)⟩

theorem checkEndpointAccess_congr
    (h : ∀ profileID e, user.profileID = some profileID →
      (⟨profileID, serverID, e⟩ ∈ d'.permissions ↔ ⟨profileID, serverID, e⟩ ∈ d.permissions)) :
    checkEndpointAccess (serve s d') user serverID r =
      checkEndpointAccess (serve s d) user serverID r := by
  cases hp : user.profileID with
  | none => exact checkEndpointAccess_tier hp
  | some profileID => ?_
  refine Option.ext fun msg => ?_
  rw [checkEndpointAccess_profile hp, checkEndpointAccess_profile hp]
  simp only [h profileID _ hp]

/-! ### What a removal does to the tables -/

variable {op : Removal} {hash : String → String} {rawKey : String}

theorem exec_subset {fault : Option String} {st : Statement}
    (hst : ∀ d', st d = .ok d' → ∀ p ∈ d'.permissions, p ∈ d.permissions) :
    ∀ p ∈ (exec fault st d).1.permissions, p ∈ d.permissions :=
  exec_induction (P := fun d' => ∀ p ∈ d'.permissions, p ∈ d.permissions) (fun _ hp => hp) hst

theorem removal_subset (htakes : op.OnlyTakes d) :
    ∀ p ∈ (op.apply d).permissions, p ∈ d.permissions := by
  cases op with
  | deleteProfile _ _ | removePermission _ _ =>
    refine exec_subset fun d' h p hp => ?_
    cases h
    exact mem_of_mem_filter hp
  | bulkSetPermissions fault profileID serverID perms =>
    refine exec_subset fun d' h p hp => ?_
    rcases ((insertPermissions_ok h).1 p).mp hp with hold | ⟨e, he, rfl⟩
    · exact mem_of_mem_filter hold
    · exact htakes e he

theorem validateAPIKey_deleteProfile
    (hkey : (d.keys.find? fun k => k.keyHash = hash rawKey) = some key)
    (hrevoked : key.revoked = false) (hu : d.user key.userID = some u) :
    validateAPIKey hash rawKey (d.deleteProfile none id).1 =
      some (⟨u.role, u.accessLevel, fallback id key u⟩,
        { key with profileID := setNull id key.profileID }) := by
  refine validateAPIKey_eq_some.mpr ⟨?_, hrevoked,
    { u with defaultProfileID := setNull id u.defaultProfileID }, ?_, rfl⟩
  · show ((d.keys.map fun k => { k with profileID := setNull id k.profileID }).find?
      fun k => k.keyHash = hash rawKey) = _
    rw [find?_map, Function.comp_def, hkey]
    rfl
  have hmap : (d.deleteProfile none id).1.user key.userID = (d.user key.userID).map fun u =>
      { u with defaultProfileID := setNull id u.defaultProfileID } :=
    Table.find_map fun _ => rfl
  rw [hmap, hu]
  rfl

theorem validateAPIKey_congr (husers : d'.users = d.users) (hkeys : d'.keys = d.keys) :
    validateAPIKey hash rawKey d' = validateAPIKey hash rawKey d := by
  unfold validateAPIKey Directory.user
  rw [husers, hkeys]

theorem removal_tables (h : ∀ id, op ≠ .deleteProfile none id) :
    (op.apply d).users = d.users ∧ (op.apply d).keys = d.keys := by
  cases op with
  | deleteProfile fault id =>
    cases fault with
    | none => exact absurd rfl (h id)
    | some err => exact ⟨rfl, rfl⟩
  | removePermission fault p =>
    refine exec_induction (P := fun d' => d'.users = d.users ∧ d'.keys = d.keys) ⟨rfl, rfl⟩
      fun d' h => ?_
    cases h
    exact ⟨rfl, rfl⟩
  | bulkSetPermissions fault profileID serverID perms =>
    refine exec_induction (P := fun d' => d'.users = d.users ∧ d'.keys = d.keys) ⟨rfl, rfl⟩
      fun d' h => ?_
    obtain ⟨-, husers, -, hkeys⟩ := insertPermissions_ok h
    exact ⟨husers, hkeys⟩

/-- **What was denied stays denied** when permissions are taken away: with the same message,
unless the profile in force for the key is deleted.  Then the key is judged by what is next
in line, and that decides as it would have decided before.  The key stays valid for its user. -/
theorem removal_denied (hash : String → String) (s : Server) (d : Directory) (op : Removal)
    (htakes : op.OnlyTakes d) (rawKey serverID : String) (r : Request) (user : User)
    (key : APIKey) (hkey : validateAPIKey hash rawKey d = some (user, key)) (msg : String)
    (hdenied : checkEndpointAccess (serve s d) user serverID r = some msg) :
    ∃ user' key' u, validateAPIKey hash rawKey (op.apply d) = some (user', key') ∧
      key'.id = key.id ∧ key'.userID = key.userID ∧
      d.user key.userID = some u ∧ user'.role = user.role ∧
      user'.accessLevel = user.accessLevel ∧
      (¬ op.Deletes user.profileID →
        checkEndpointAccess (serve s (op.apply d)) user' serverID r = some msg) ∧
      ∀ id, op = .deleteProfile none id → user.profileID = some id →
        user'.profileID = fallback id key u ∧
          checkEndpointAccess (serve s (op.apply d)) user' serverID r =
            checkEndpointAccess (serve s d) user' serverID r := by
  obtain ⟨hfind, hrevoked, u, hu, huser⟩ := validateAPIKey_eq_some.mp hkey
  by_cases hdelete : ∃ id, op = .deleteProfile none id
  · obtain ⟨id, rfl⟩ := hdelete
    refine ⟨_, _, u, validateAPIKey_deleteProfile hfind hrevoked hu, rfl, rfl, hu,
      by rw [huser], by rw [huser], fun hnot => ?_, fun id' hid' _ => ?_⟩
    · -- the profile in force is another one, and stays in force
      have hprofile : fallback id key u = user.profileID := by
        rw [huser] at hnot ⊢
        exact fallback_eq fun h => hnot ⟨rfl, h⟩
      have hsame : (⟨u.role, u.accessLevel, fallback id key u⟩ : User) = user := by
        rw [hprofile, huser]
      rw [hsame]
      exact denied_of_subset (removal_subset htakes) hdenied
    · obtain rfl : id = id' := (Removal.deleteProfile.inj hid').2
      refine ⟨rfl, checkEndpointAccess_congr fun profileID e hp => ?_⟩
      have hne := fallback_ne hp
      show _ ∈ d.permissions.filter (fun p => p.profileID ≠ id) ↔ _
      simp [hne]
  · have hne : ∀ id, op ≠ .deleteProfile none id := fun id h => hdelete ⟨id, h⟩
    obtain ⟨husers, hkeys⟩ := removal_tables hne
    refine ⟨user, key, u, (validateAPIKey_congr husers hkeys).trans hkey, rfl, rfl, hu, rfl, rfl,
      fun _ => denied_of_subset (removal_subset htakes) hdenied, fun id h => absurd h (hne id)⟩

/-- A key with a profile that permits `list`. -/
def profiledDirectory : Directory where
  users := [⟨"u1", "agent", "user", .write, none⟩]
  keys := [{ id := "k1", userID := "u1", keyHash := "secret", profileID := some "p1" }]
  profiles := ["p1"]
  servers := ["s1"]
  permissions := [⟨"p1", "s1", ⟨.tool, "list"⟩⟩]
  issued := ["u1"]
  userIDs := by simp
  usernames := by simp
  userIssued := by simp
  userRoles := by simp
  userProfiles := by simp
  keyIDs := by simp
  keyUsers := by simp
  keyProfiles := by simp
  permissionKeys := by simp
  permissionProfiles := by simp
  permissionServers := by simp

def profiledServer : Server where
  servers := [("files", "s1")]
  backends := [("s1", .stdio)]
  tiers := { rows := [], keys := by simp }
  permissions := []

/-- A call of a tool that the profile does not permit. -/
def callDelete : Request where
  jsonrpc := "2.0"
  id := none
  method := "tools/call"
  params := some (Json.utf8 "\x7b\"name\":\"delete\"\x7d")

theorem removal_denied_remove :
    let op : Removal := .removePermission none ⟨"p1", "s1", ⟨.tool, "list"⟩⟩
    ∃ user' key', validateAPIKey (fun k => k) "secret" (op.apply profiledDirectory) =
        some (user', key') ∧ key'.userID = "u1" ∧
      checkEndpointAccess (serve profiledServer (op.apply profiledDirectory)) user' "s1"
        callDelete = some "access denied: not permitted by profile" := by
  intro op
  obtain ⟨user', key', -, hkey, -, hid, -, -, -, hdenied, -⟩ := removal_denied (fun k => k)
    profiledServer profiledDirectory op trivial "secret" "s1" callDelete ⟨"user", .write, some "p1"⟩
    { id := "k1", userID := "u1", keyHash := "secret", profileID := some "p1" } (by decide +kernel)
    "access denied: not permitted by profile" (by decide +kernel)
  exact ⟨user', key', hkey, hid, hdenied fun h => h⟩

/-- **The key gains a tool when its profile is deleted**: the profile does not permit it, the
access level of the user does. -/
theorem deletion_permits :
    let user : User := ⟨"user", .write, some "p1"⟩
    let user' : User := ⟨"user", .write, none⟩
    let d' := (Removal.deleteProfile none "p1").apply profiledDirectory
    (validateAPIKey (fun k => k) "secret" profiledDirectory).map (·.1) = some user ∧
      checkEndpointAccess (serve profiledServer profiledDirectory) user "s1" callDelete =
        some "access denied: not permitted by profile" ∧
      (validateAPIKey (fun k => k) "secret" d').map (·.1) = some user' ∧
      checkEndpointAccess (serve profiledServer d') user' "s1" callDelete = none := by
  decide +kernel

end ArcRelay.Proxy
