import ArcRelay.Access.Sync

/-!
# Enumerating a server

`EnumerateServer` (`internal/proxy/proxy.go`) asks a running server for its endpoints and
brings the access tiers in line with the answer.  A failure to get an answer should not
give anyone access they did not have.  It does: the result of a failed enumeration is an
empty list, the rows of everything that is not in the list are deleted, overrides set by
hand included, and an endpoint without a row has the tier `write`.

`access_kept_iff` says exactly when nothing is lost.  `override_lost` is an override that
is.

* `KeepsOverrides`, `NoGrowth`, `Mild`: what should hold, and when it does.
-/

namespace ArcRelay.Proxy

open Access Mcp Option

/-! ### The program -/

structure Manager where
  backends : List (String × Sender)
  endpoints : List (String × ServerEndpoints)
  accessStore : AccessStore

section

variable (dec : Decoders) (lower : Char → Char) (faults : SyncFaults)

def syncAccessTiers (m : Manager) (serverID : String) (endpoints : ServerEndpoints) : Manager :=
  { m with
    accessStore := m.accessStore.syncAfterEnumerate faults serverID endpoints.infos
      (classifyEndpoint lower) }

/-- The endpoints and the error that are returned.  The tiers are synced with what was
found also when there is an error. -/
def enumerateServer (m : Manager) (serverID : String) :
    Manager × Option ServerEndpoints × Option String :=
  match m.backends.lookup serverID with
  | none => (m, none, some "server not running")
  | some send =>
    let (endpoints, err) := enumerate dec send
    let m := { m with
      endpoints := (serverID, endpoints) :: m.endpoints.filter fun c => c.1 ≠ serverID }
    (syncAccessTiers lower faults m serverID endpoints, some endpoints, err)

end

/-! ### What should hold -/

/-- The overrides set by hand are there as before if the list of their type was not had. -/
def KeepsOverrides (had : EndpointType → Option (List EndpointInfo)) (serverID : String)
    (s s' : AccessStore) : Prop :=
  ∀ e r, s.row serverID e = some r → r.autoClassified = false → had e.endpointType = none →
    s'.row serverID e = some r

/-- No one but an administrator may call by their level what they could not call before. -/
def NoGrowth (s s' : AccessStore) : Prop :=
  ∀ (u : User) (permissions : List ProfilePermission) (serverID : String) (e : Endpoint),
    u.role ≠ "admin" → u.profileID = none →
      u.permitted s' permissions serverID e → u.permitted s permissions serverID e

/-- The condition.  No row that is deleted has the tier `admin`, or was set by hand while
its list was not had; and the classifier gives no endpoint that has no override a lower
tier than it had. -/
structure Mild (had : EndpointType → Option (List EndpointInfo)) (endpoints : List EndpointInfo)
    (classify : EndpointInfo → Tier) (faults : SyncFaults) (serverID : String) (s : AccessStore) :
    Prop where
  overrides : ∀ e r, s.row serverID e = some r → stale s faults serverID endpoints e = true →
    had e.endpointType = none → r.autoClassified = true
  deleted : ∀ e r, s.row serverID e = some r → stale s faults serverID endpoints e = true →
    r.accessTier ≠ .admin
  reclassified : ∀ e ep, lastInfo (written faults endpoints) e = some ep →
    (∀ r, s.row serverID e = some r → r.autoClassified = true) →
      tierLevel (s.getTier serverID e) ≤ tierLevel (classify ep)

theorem noGrowth_iff {s s' : AccessStore} : NoGrowth s s' ↔
    ∀ serverID e, tierLevel (s.getTier serverID e) ≤ tierLevel (s'.getTier serverID e) := by
  constructor
  · intro h serverID e
    -- someone whose level is just the new tier
    have := h ⟨"user", s'.getTier serverID e, none⟩ [] serverID e (by simp) rfl
    simpa [User.permitted, checkAccess] using this
  · intro h u permissions serverID e _ hprofile hpermitted
    simp only [User.permitted, hprofile, checkAccess, decide_eq_true_eq] at hpermitted ⊢
    exact Nat.le_trans (h serverID e) hpermitted

/-! ### The transaction -/

section

variable {had : EndpointType → Option (List EndpointInfo)} {endpoints : List EndpointInfo}
  {classify : EndpointInfo → Tier} {faults : SyncFaults} {serverID : String} {s : AccessStore}

theorem not_stale_of_lastInfo {e : Endpoint} {ep : EndpointInfo}
    (h : lastInfo (written faults endpoints) e = some ep) :
    stale s faults serverID endpoints e = false := by
  obtain ⟨hmem, he⟩ := lastInfo_eq_some h
  have hany : (endpoints.any fun ep => ep.endpoint = e) = true :=
    List.any_eq_true.mpr ⟨ep, mem_of_mem_written hmem, decide_eq_true he⟩
  simp [stale, hany]

theorem accessTier_refreshed (e : Endpoint) (tier : Tier) (old : Option EndpointTier) :
    (refreshed serverID e tier old).accessTier =
      match old with
      | some r => if r.autoClassified then tier else r.accessTier
      | none => tier := by
  cases old with
  | none => rfl
  | some r => ?_
  by_cases hr : r.autoClassified
  · simp [refreshed, hr]
  · simp [refreshed, hr]

theorem Mild.tier_le (h : Mild had endpoints classify faults serverID s) (e : Endpoint) :
    tierLevel (s.getTier serverID e) ≤ tierLevel
      (((if stale s faults serverID endpoints e then none
        else
          match lastInfo (written faults endpoints) e with
          | none => s.row serverID e
          | some ep => some (refreshed serverID e (classify ep) (s.row serverID e))).map
        (·.accessTier)).getD .write) := by
  split
  · next hstale =>
    -- without a row the tier is `write`
    cases hr : s.row serverID e with
    | none => simp [AccessStore.getTier, hr]
    | some r => ?_
    have hne := h.deleted e r hr hstale
    rw [AccessStore.getTier, hr]
    show tierLevel r.accessTier ≤ tierLevel .write
    cases htier : r.accessTier with
    | read => decide
    | write => decide
    | admin => exact absurd htier hne
  · split
    · exact le_rfl
    next ep hlast =>
    rw [map_some, getD_some, accessTier_refreshed]
    cases hr : s.row serverID e with
    | none => exact h.reclassified e ep hlast (by simp [hr])
    | some r => ?_
    by_cases hauto : r.autoClassified
    · have hle := h.reclassified e ep hlast (by simpa [hr] using hauto)
      simpa [hauto] using hle
    · simp [AccessStore.getTier, hr, hauto]

/-- **A transaction that is committed weakens nothing iff it is mild.** -/
theorem sync_kept_iff (hbegin : faults.begin = false) (hcommit : faults.commit = false)
    (hhad : ∀ ep ∈ endpoints, had ep.endpoint.endpointType ≠ none) :
    KeepsOverrides had serverID s (s.syncAfterEnumerate faults serverID endpoints classify) ∧
        NoGrowth s (s.syncAfterEnumerate faults serverID endpoints classify) ↔
      Mild had endpoints classify faults serverID s := by
  have hrow : ∀ e, (s.syncAfterEnumerate faults serverID endpoints classify).row serverID e = _ :=
    fun e => (row_sync hbegin hcommit serverID e).trans (if_pos rfl)
  rw [noGrowth_iff]
  constructor
  · rintro ⟨hkeep, hlevel⟩
    -- each kind of harm shows at the endpoint it is done to
    refine ⟨fun e r hr hstale hnone => ?_, fun e r hr hstale hadmin => ?_,
      fun e ep hlast hauto => ?_⟩
    · by_contra hmanual
      have hkept := hkeep e r hr (by simpa using hmanual) hnone
      rw [hrow, if_pos hstale] at hkept
      cases hkept
    · have hle := hlevel serverID e
      rw [AccessStore.getTier, AccessStore.getTier, hrow, if_pos hstale, hr] at hle
      simp [hadmin, tierLevel] at hle
    have hle := hlevel serverID e
    rw [AccessStore.getTier.eq_1 (s.syncAfterEnumerate _ _ _ _), hrow,
      not_stale_of_lastInfo hlast, hlast] at hle
    simp only [Bool.false_eq_true, if_false, map_some, getD_some, accessTier_refreshed] at hle
    cases hr : s.row serverID e with
    | none => simpa [hr] using hle
    | some r => simpa [hr, hauto r hr] using hle
  · intro hmild
    refine ⟨fun e r hr hmanual hnone => ?_, fun serverID' e => ?_⟩
    · have hstale : stale s faults serverID endpoints e = false := by
        by_contra hstale
        have hauto := hmild.overrides e r hr (by simpa using hstale) hnone
        simp [hmanual] at hauto
      have hlast : lastInfo (written faults endpoints) e = none := by
        refine lastInfo_eq_none fun ep hep he => ?_
        exact hhad ep (mem_of_mem_written hep) (he ▸ hnone)
      rw [hrow, hstale, hlast]
      exact hr
    · by_cases hs : serverID' = serverID
      · rw [hs, AccessStore.getTier.eq_1 (s.syncAfterEnumerate _ _ _ _), hrow]
        exact hmild.tier_le e
      have hsame : (s.syncAfterEnumerate faults serverID endpoints classify).row serverID' e =
          s.row serverID' e := (row_sync hbegin hcommit serverID' e).trans (if_neg hs)
      exact Nat.le_of_eq (by rw [AccessStore.getTier, AccessStore.getTier, hsame])

end

/-! ### The server -/

def Manager.had (dec : Decoders) (m : Manager) (serverID : String) (t : EndpointType) :
    Option (List EndpointInfo) :=
  (m.backends.lookup serverID).bind fun send => fetched dec send t

/-- **An enumeration weakens nothing iff it is mild**: whatever the server answers, the
overrides whose list was not had are kept and no one may call more than before, exactly
if the server does not run, the transaction does not go through, or what is deleted and
reclassified is harmless. -/
theorem access_kept_iff (dec : Decoders) (lower : Char → Char) (faults : SyncFaults) (m : Manager)
    (serverID : String) :
    KeepsOverrides (m.had dec serverID) serverID m.accessStore
          (enumerateServer dec lower faults m serverID).1.accessStore ∧
        NoGrowth m.accessStore (enumerateServer dec lower faults m serverID).1.accessStore ↔
      ∀ send, m.backends.lookup serverID = some send → faults.begin = false →
        faults.commit = false →
          Mild (fetched dec send) (found dec send) (classifyEndpoint lower) faults serverID
            m.accessStore := by
  have hself : KeepsOverrides (m.had dec serverID) serverID m.accessStore m.accessStore ∧
      NoGrowth m.accessStore m.accessStore :=
    ⟨fun _ _ hr _ _ => hr, fun _ _ _ _ _ _ h => h⟩
  unfold enumerateServer
  cases hsend : m.backends.lookup serverID with
  | none => simpa using hself
  | some send => ?_
  have hhad : m.had dec serverID = fetched dec send := by
    funext t
    rw [Manager.had, hsend, bind_some]
  show KeepsOverrides _ _ _ (m.accessStore.syncAfterEnumerate _ _ (enumerate dec send).1.infos _) ∧
    NoGrowth _ (m.accessStore.syncAfterEnumerate _ _ (enumerate dec send).1.infos _) ↔ _
  rw [infos_enumerate]
  by_cases hthrough : faults.begin = false ∧ faults.commit = false
  · obtain ⟨hbegin, hcommit⟩ := hthrough
    rw [hhad, sync_kept_iff hbegin hcommit]
    · simp [hbegin, hcommit]
    intro ep hep hnone
    obtain ⟨l, hl, -⟩ := mem_found.mp hep
    rw [hl] at hnone
    cases hnone
  · have hfault : faults.begin = true ∨ faults.commit = true := by
      cases hb : faults.begin <;> cases hc : faults.commit <;> simp_all
    rw [sync_eq_self hfault]
    refine ⟨fun _ _ _ hb hc => absurd ⟨hb, hc⟩ hthrough, fun _ => hself⟩

/-- An override that makes a tool one for administrators is gone when the server does not
answer, and everyone who may write may call the tool. -/
theorem override_lost :
    let wipe : Endpoint := ⟨.tool, "wipe"⟩
    let m : Manager :=
      { backends := [("files", fun _ => .error "connection refused")]
        endpoints := []
        accessStore := ⟨[⟨"files", wipe, .admin, false⟩], by simp⟩ }
    let dec : Decoders :=
      ⟨fun _ => .error "", fun _ => .error "", fun _ => .error "", fun _ => .error ""⟩
    let s' := (enumerateServer dec id {} m "files").1.accessStore
    let writer : User := ⟨"user", .write, none⟩
    m.accessStore.row "files" wipe = some ⟨"files", wipe, .admin, false⟩ ∧
      m.had dec "files" .tool = none ∧ s'.row "files" wipe = none ∧
      writer.permitted m.accessStore [] "files" wipe = false ∧
      writer.permitted s' [] "files" wipe = true := by
  decide +kernel

end ArcRelay.Proxy
