import ArcRelay.Lib.Table

/-!
# Who may call an endpoint

Two tables say which endpoints of a server a user may call
(`internal/store/access.go`, `internal/store/profiles.go`).  A user with a profile may
call what the profile lists.  A user without one has an access level, every endpoint has
a tier, and the level must reach the tier; an endpoint without a row has the tier
`write`.

The checks of the schema on the columns for types and tiers are the types
`EndpointType` and `Tier` here, and the primary key is a field of `AccessStore`.
-/

namespace ArcRelay.Access

inductive EndpointType where
  | tool | resource | prompt
  deriving DecidableEq

inductive Tier where
  | read | write | admin
  deriving DecidableEq

structure Endpoint where
  endpointType : EndpointType
  name : String
  deriving DecidableEq

/-- A row of `endpoint_access_tiers`. -/
structure EndpointTier where
  serverID : String
  endpoint : Endpoint
  accessTier : Tier
  autoClassified : Bool
  deriving DecidableEq

def EndpointTier.key (r : EndpointTier) : String × Endpoint := (r.serverID, r.endpoint)

structure AccessStore where
  rows : List EndpointTier
  keys : (rows.map EndpointTier.key).Nodup

namespace AccessStore

def row (s : AccessStore) (serverID : String) (e : Endpoint) : Option EndpointTier :=
  Table.find EndpointTier.key (serverID, e) s.rows

/-- The tier of an endpoint; `write` when it has none. -/
def getTier (s : AccessStore) (serverID : String) (e : Endpoint) : Tier :=
  ((s.row serverID e).map (·.accessTier)).getD .write

/-- `INSERT ... ON CONFLICT DO UPDATE SET access_tier = ?, auto_classified = FALSE`. -/
def setTier (s : AccessStore) (serverID : String) (e : Endpoint) (tier : Tier) : AccessStore where
  rows := Table.upsert EndpointTier.key
    (fun r => { r with accessTier := tier, autoClassified := false })
    ⟨serverID, e, tier, false⟩ s.rows
  keys := Table.nodup_upsert (fun _ h => h) s.keys

end AccessStore

def tierLevel : Tier → ℕ
  | .read => 1
  | .write => 2
  | .admin => 3

def checkAccess (userLevel endpointTier : Tier) : Bool :=
  tierLevel endpointTier ≤ tierLevel userLevel

/-- A row of `profile_permissions`. -/
structure ProfilePermission where
  profileID : String
  serverID : String
  endpoint : Endpoint
  deriving DecidableEq

def checkPermission (permissions : List ProfilePermission) (profileID serverID : String)
    (e : Endpoint) : Bool :=
  0 < permissions.countP fun p => p = ⟨profileID, serverID, e⟩

structure User where
  role : String
  accessLevel : Tier
  profileID : Option String
  deriving DecidableEq

/-- The rule: by the profile when there is one, by the level otherwise. -/
def User.permitted (u : User) (tiers : AccessStore) (permissions : List ProfilePermission)
    (serverID : String) (e : Endpoint) : Bool :=
  match u.profileID with
  | some profileID => checkPermission permissions profileID serverID e
  | none => checkAccess u.accessLevel (tiers.getTier serverID e)

end ArcRelay.Access
