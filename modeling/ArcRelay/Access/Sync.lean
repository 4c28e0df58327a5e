import ArcRelay.Mcp.Enumerate
import Mathlib.Data.List.Induction

/-!
# Bringing the tiers up to date

After an enumeration the tiers of a server are brought in line with what was found
(`SyncAfterEnumerate` in `internal/store/access.go`), in one transaction: each endpoint
found gets a row with the tier the classifier gives it, unless it has one that was set by
hand, and each row of an endpoint that was not found is deleted, set by hand or not.
Any statement may fail; all but the first and the last failure are passed over.

* `Change.Spares`: a change that leaves a tier set by hand alone.
* `sync_exact`: the tiers after a transaction without faults.
* `manual_tier_stays`: a tier that was set by hand stays.
-/

namespace ArcRelay.Access

open Mcp List Option Table

/-- The statements that fail: each upsert is known by its place in the list. -/
structure SyncFaults where
  begin : Bool := false
  upsert : ℕ → Bool := fun _ => false
  list : Bool := false
  delete : Endpoint → Bool := fun _ => false
  commit : Bool := false

namespace AccessStore

/-- `INSERT ... ON CONFLICT DO UPDATE SET access_tier = ? WHERE auto_classified = TRUE`. -/
def upsertAuto (s : AccessStore) (serverID : String) (e : Endpoint) (tier : Tier) :
    AccessStore where
  rows := Table.upsert EndpointTier.key
    (fun r => if r.autoClassified then { r with accessTier := tier } else r)
    ⟨serverID, e, tier, true⟩ s.rows
  keys := by
    refine nodup_upsert (fun r h => ?_) s.keys
    split <;> exact h

def delete (s : AccessStore) (serverID : String) (e : Endpoint) : AccessStore where
  rows := Table.delete EndpointTier.key (serverID, e) s.rows
  keys := nodup_delete s.keys

def getAllTiers (s : AccessStore) (serverID : String) : List EndpointTier :=
  s.rows.filter fun r => r.serverID = serverID

/-- The transaction.  The rows that may be stale are read outside of it, as they were
before. -/
def syncAfterEnumerate (s : AccessStore) (faults : SyncFaults) (serverID : String)
    (endpoints : List EndpointInfo) (classify : EndpointInfo → Tier) : AccessStore :=
  if faults.begin then s
  else
    let upserted := endpoints.zipIdx.foldl
      (fun t p =>
        if faults.upsert p.2 then t else t.upsertAuto serverID p.1.endpoint (classify p.1)) s
    let synced :=
      if faults.list then upserted
      else
        (s.getAllTiers serverID).foldl
          (fun t r =>
            if endpoints.any (fun ep => ep.endpoint = r.endpoint) || faults.delete r.endpoint then t
            else t.delete serverID r.endpoint) upserted
    if faults.commit then s else synced

end AccessStore

/-! ### One statement -/

def refreshed (serverID : String) (e : Endpoint) (tier : Tier) : Option EndpointTier → EndpointTier
  | none => ⟨serverID, e, tier, true⟩
  | some r => if r.autoClassified then { r with accessTier := tier } else r

theorem refreshed_refreshed (serverID : String) (e : Endpoint) (t t' : Tier)
    (old : Option EndpointTier) :
    refreshed serverID e t (some (refreshed serverID e t' old)) = refreshed serverID e t old := by
  cases old with
  | none => rfl
  | some r => ?_
  by_cases hr : r.autoClassified
  · simp [refreshed, hr]
  · simp [refreshed, hr]

section

variable (s : AccessStore) (serverID serverID' : String) (e e' : Endpoint) (tier : Tier)

theorem row_upsertAuto : (s.upsertAuto serverID e tier).row serverID' e' =
    if (serverID', e') = (serverID, e) then some (refreshed serverID e tier (s.row serverID e))
    else s.row serverID' e' := by
  unfold AccessStore.upsertAuto AccessStore.row
  rw [find_upsert]
  · show (if (serverID', e') = (serverID, e) then _ else _) = _
    by_cases h : (serverID', e') = (serverID, e)
    · rw [if_pos h, if_pos h, h]
      cases Table.find EndpointTier.key (serverID, e) s.rows with
      | none | some _ => rfl
    · rw [if_neg h, if_neg h]
  · intro r hr
    split <;> exact hr

theorem row_delete : (s.delete serverID e).row serverID' e' =
    if (serverID', e') = (serverID, e) then none else s.row serverID' e' :=
  find_delete

end

/-! ### The loops -/

def written (faults : SyncFaults) (endpoints : List EndpointInfo) : List EndpointInfo :=
  (endpoints.zipIdx.filter fun p => !faults.upsert p.2).map (·.1)

def lastInfo (endpoints : List EndpointInfo) (e : Endpoint) : Option EndpointInfo :=
  endpoints.reverse.find? fun ep => ep.endpoint = e

variable {endpoints : List EndpointInfo} {ep : EndpointInfo} {e : Endpoint}

theorem mem_of_mem_written {faults : SyncFaults} (h : ep ∈ written faults endpoints) :
    ep ∈ endpoints := by
  obtain ⟨p, hp, rfl⟩ := mem_map.mp h
  exact fst_mem_of_mem_zipIdx (mem_filter.mp hp).1

theorem lastInfo_concat (endpoints : List EndpointInfo) (ep : EndpointInfo) (e : Endpoint) :
    lastInfo (endpoints ++ [ep]) e = if ep.endpoint = e then some ep else lastInfo endpoints e := by
  rw [lastInfo, reverse_append, reverse_singleton, singleton_append, find?_cons]
  by_cases h : ep.endpoint = e
  · simp [h]
  · simp [h, lastInfo]

theorem lastInfo_eq_some (h : lastInfo endpoints e = some ep) : ep ∈ endpoints ∧ ep.endpoint = e :=
  ⟨mem_reverse.mp (mem_of_find?_eq_some h), by simpa using find?_some h⟩

theorem lastInfo_eq_none (h : ∀ ep ∈ endpoints, ep.endpoint ≠ e) : lastInfo endpoints e = none := by
  rw [lastInfo, find?_eq_none]
  intro ep hep
  simpa using h ep (mem_reverse.mp hep)

section

variable (s : AccessStore) (serverID : String) (classify : EndpointInfo → Tier)

theorem row_upserts (endpoints : List EndpointInfo) (serverID' : String) (e : Endpoint) :
    (endpoints.foldl (fun t ep => t.upsertAuto serverID ep.endpoint (classify ep)) s).row
        serverID' e =
      if serverID' = serverID then
        match lastInfo endpoints e with
        | none => s.row serverID e
        | some ep => some (refreshed serverID e (classify ep) (s.row serverID e))
      else s.row serverID' e := by
  induction endpoints using List.reverseRecOn with
  | nil =>
    split
    · next h =>
      rw [h]
      rfl
    · rfl
  | append_singleton eps ep ih => ?_
  rw [foldl_concat, row_upsertAuto, lastInfo_concat]
  by_cases hs : serverID' = serverID
  · subst hs
    rw [if_pos rfl] at ih ⊢
    by_cases he : ep.endpoint = e
    · -- a second upsert of one endpoint leaves what it alone would have written
      subst he
      rw [if_pos rfl, if_pos rfl, ih]
      cases lastInfo eps ep.endpoint with
      | none => rfl
      | some ep' => exact congrArg some (refreshed_refreshed ..)
    · rw [if_neg he, if_neg fun h => he (Prod.mk.inj h).2.symm]
      exact ih
  · rw [if_neg hs] at ih ⊢
    rw [if_neg fun h => hs (Prod.mk.inj h).1]
    exact ih

theorem row_deletes (stale : List Endpoint) (serverID' : String) (e : Endpoint) :
    (stale.foldl (fun t e => t.delete serverID e) s).row serverID' e =
      if serverID' = serverID ∧ e ∈ stale then none else s.row serverID' e := by
  induction stale generalizing s with
  | nil => simp
  | cons d stale ih => ?_
  rw [foldl_cons, ih, row_delete]
  by_cases hs : serverID' = serverID
  · by_cases hd : e = d
    · simp [hs, hd]
    · simp [hs, hd]
  · simp [hs]

end

/-! ### The transaction -/

variable {s : AccessStore} {faults : SyncFaults} {serverID : String}
  {classify : EndpointInfo → Tier}

/-- Whether the row of an endpoint is deleted: it has one, it was not found, and neither
the reading nor the deletion fails. -/
def stale (s : AccessStore) (faults : SyncFaults) (serverID : String)
    (endpoints : List EndpointInfo) (e : Endpoint) : Bool :=
  !faults.list && (s.row serverID e).isSome && !(endpoints.any fun ep => ep.endpoint = e) &&
    !faults.delete e

theorem row_isSome : (s.row serverID e).isSome ↔ ∃ r ∈ s.getAllTiers serverID, r.endpoint = e := by
  constructor
  · intro h
    obtain ⟨r, hr⟩ := isSome_iff_exists.mp h
    have hkey : r.key = (serverID, e) := key_of_find hr
    obtain ⟨hserver, he⟩ := Prod.mk.inj hkey
    exact ⟨r, mem_filter.mpr ⟨mem_of_find hr, decide_eq_true hserver⟩, he⟩
  rintro ⟨r, hr, rfl⟩
  obtain ⟨hmem, hserver⟩ := mem_filter.mp hr
  obtain rfl := of_decide_eq_true hserver
  exact isSome_iff_exists.mpr ⟨r, find_of_mem s.keys hmem⟩

theorem foldl_upserts : endpoints.zipIdx.foldl
      (fun t p =>
        if faults.upsert p.2 then t else t.upsertAuto serverID p.1.endpoint (classify p.1)) s =
    (written faults endpoints).foldl
      (fun t ep => t.upsertAuto serverID ep.endpoint (classify ep)) s := by
  rw [written, foldl_map, foldl_filter]
  congr 1
  funext t p
  cases faults.upsert p.2 with
  | true | false => rfl

theorem foldl_deletes (rows : List EndpointTier) (keep : Endpoint → Bool) (t : AccessStore) :
    rows.foldl (fun t r => if keep r.endpoint then t else t.delete serverID r.endpoint) t =
      ((rows.map (·.endpoint)).filter fun e => !keep e).foldl
        (fun t e => t.delete serverID e) t := by
  rw [foldl_filter, foldl_map]
  congr 1
  funext t r
  cases keep r.endpoint with
  | true | false => rfl

/-- **The row of an endpoint after a transaction that was committed**: gone if it was
stale, refreshed by its last entry if it was found, and as it was otherwise. -/
theorem row_sync (hbegin : faults.begin = false) (hcommit : faults.commit = false)
    (serverID' : String) (e : Endpoint) :
    (s.syncAfterEnumerate faults serverID endpoints classify).row serverID' e =
      if serverID' = serverID then
        if stale s faults serverID endpoints e then none
        else
          match lastInfo (written faults endpoints) e with
          | none => s.row serverID e
          | some ep => some (refreshed serverID e (classify ep) (s.row serverID e))
      else s.row serverID' e := by
  unfold AccessStore.syncAfterEnumerate
  rw [hbegin, hcommit]
  simp only [Bool.false_eq_true, if_false]
  rw [foldl_upserts]
  by_cases hlist : faults.list
  · -- without the list of rows nothing is stale
    have hstale : stale s faults serverID endpoints e = false := by simp [stale, hlist]
    rw [if_pos hlist, row_upserts, hstale]
    rfl
  rw [if_neg hlist, foldl_deletes _ fun e =>
    endpoints.any (fun ep => ep.endpoint = e) || faults.delete e, row_deletes, row_upserts]
  by_cases hs : serverID' = serverID
  · have hmem : (e ∈ ((s.getAllTiers serverID).map (·.endpoint)).filter fun e =>
        !(endpoints.any (fun ep => ep.endpoint = e) || faults.delete e)) ↔
          stale s faults serverID endpoints e = true := by
      rw [mem_filter, List.mem_map, ← row_isSome]
      simp [stale, hlist, and_assoc]
    simp only [hs, true_and, if_true, hmem]
  · simp [hs]

theorem sync_eq_self (h : faults.begin = true ∨ faults.commit = true) :
    s.syncAfterEnumerate faults serverID endpoints classify = s := by
  unfold AccessStore.syncAfterEnumerate
  rcases h with h | h
  · rw [if_pos h]
  · simp [h]

theorem written_all : written {} endpoints = endpoints := by
  simp [written, filter_true]

/-- **The tiers after a transaction without faults**: the endpoints with a row are those of the
list, a row that was set by hand is as it was, and every other one has the tier that the classifier
gives to the last entry for its endpoint. -/
theorem sync_exact (s : AccessStore) (serverID : String) (endpoints : List EndpointInfo)
    (classify : EndpointInfo → Tier) :
    let s' := s.syncAfterEnumerate {} serverID endpoints classify
    (∀ e, (s'.row serverID e).isSome ↔ ∃ ep ∈ endpoints, ep.endpoint = e) ∧
      (∀ e r, s'.row serverID e = some r →
        (∀ old, s.row serverID e = some old → old.autoClassified = false → r = old) ∧
          ((∀ old, s.row serverID e = some old → old.autoClassified = true) →
            r.autoClassified = true ∧ (lastInfo endpoints e).map classify = some r.accessTier)) ∧
      ∀ serverID' ≠ serverID, ∀ e, s'.row serverID' e = s.row serverID' e := by
  intro s'
  have hrow : ∀ e, s'.row serverID e = (lastInfo endpoints e).map fun ep =>
      refreshed serverID e (classify ep) (s.row serverID e) := by
    intro e
    rw [row_sync rfl rfl, if_pos rfl, written_all]
    cases hlast : lastInfo endpoints e with
    | some ep =>
      obtain ⟨hmem, he⟩ := lastInfo_eq_some hlast
      have hfound : stale s {} serverID endpoints e = false := by
        simp only [stale, Bool.and_eq_false_iff, Bool.not_eq_false']
        exact .inl (.inr (any_eq_true.mpr ⟨ep, hmem, decide_eq_true he⟩))
      rw [hfound]
      rfl
    | none =>
      have hlost : endpoints.any (fun ep => ep.endpoint = e) = false := by
        simpa [lastInfo] using hlast
      cases hold : s.row serverID e with
      | none | some r => simp [stale, hlost, hold]
  refine ⟨fun e => ?_, fun e r hr => ?_, fun serverID' hne e => ?_⟩
  · rw [hrow, isSome_map]
    simp [lastInfo]
  · rw [hrow, map_eq_some_iff] at hr
    obtain ⟨ep, hlast, rfl⟩ := hr
    cases hold : s.row serverID e with
    | none => exact ⟨nofun, fun _ => ⟨rfl, by rw [hlast]; rfl⟩⟩
    | some old => ?_
    refine ⟨?_, fun hauto => ?_⟩
    · rintro _ ⟨⟩ hmanual
      simp [refreshed, hmanual]
    · have := hauto old rfl
      simp [refreshed, this, hlast]
  · rw [row_sync rfl rfl, if_neg hne]

/-! ### Tiers set by hand -/

inductive Change where
  | setTier (serverID : String) (e : Endpoint) (tier : Tier)
  | sync (faults : SyncFaults) (serverID : String) (endpoints : List EndpointInfo)
      (classify : EndpointInfo → Tier)

def Change.apply (s : AccessStore) : Change → AccessStore
  | .setTier serverID e tier => s.setTier serverID e tier
  | .sync faults serverID endpoints classify =>
    s.syncAfterEnumerate faults serverID endpoints classify

/-- It does not set the tier anew, and is no transaction that finds the endpoint gone. -/
def Change.Spares (serverID : String) (e : Endpoint) : Change → Prop
  | .setTier serverID' e' _ => (serverID', e') ≠ (serverID, e)
  | .sync faults serverID' endpoints _ => serverID' = serverID →
      faults.begin ∨ faults.commit ∨ faults.list ∨ faults.delete e ∨
        ∃ ep ∈ endpoints, ep.endpoint = e

theorem row_setTier (s : AccessStore) (serverID serverID' : String) (e e' : Endpoint)
    (tier : Tier) : (s.setTier serverID e tier).row serverID' e' =
      if (serverID', e') = (serverID, e) then some ⟨serverID, e, tier, false⟩
      else s.row serverID' e' := by
  unfold AccessStore.setTier AccessStore.row
  rw [find_upsert (by exact fun _ h => h)]
  show (if (serverID', e') = (serverID, e) then _ else _) = _
  by_cases h : (serverID', e') = (serverID, e)
  · rw [if_pos h, if_pos h]
    cases hfind : Table.find EndpointTier.key (serverID', e') s.rows with
    | none => rfl
    | some r =>
      obtain ⟨hserver, he⟩ := Prod.mk.inj ((key_of_find hfind).trans h)
      simp [← hserver, ← he]
  · rw [if_neg h, if_neg h]

theorem Change.row_apply {c : Change} {s : AccessStore} {serverID : String} {e : Endpoint}
    {r : EndpointTier} (hc : c.Spares serverID e) (hr : s.row serverID e = some r)
    (hmanual : r.autoClassified = false) : (c.apply s).row serverID e = some r := by
  cases c with
  | setTier serverID' e' tier =>
    rw [Change.apply, row_setTier, if_neg (Ne.symm hc), hr]
  | sync faults serverID' endpoints classify => ?_
  rw [Change.apply]
  by_cases hself : faults.begin = true ∨ faults.commit = true
  · rw [sync_eq_self hself, hr]
  obtain ⟨hbegin, hcommit⟩ : faults.begin = false ∧ faults.commit = false := by simpa using hself
  rw [row_sync hbegin hcommit]
  split
  · next hserver =>
    subst hserver
    have hstale : stale s faults serverID endpoints e = false := by
      rcases hc rfl with h | h | h | h | ⟨ep, hep, he⟩
      · exact absurd (.inl h) hself
      · exact absurd (.inr h) hself
      · simp [stale, h]
      · simp [stale, h]
      · simp only [stale, Bool.and_eq_false_iff, Bool.not_eq_false']
        exact .inl (.inr (any_eq_true.mpr ⟨ep, hep, decide_eq_true he⟩))
    rw [hstale, hr]
    cases lastInfo (written faults endpoints) e with
    | none => rfl
    | some ep => simp [refreshed, hmanual]
  · exact hr

/-- **A tier that was set by hand stays**, whatever else is set and synced and whatever fails, as
long as no sync finds the endpoint gone. -/
theorem manual_tier_stays (s : AccessStore) (serverID : String) (e : Endpoint) (tier : Tier)
    (changes : List Change) (h : ∀ c ∈ changes, c.Spares serverID e) :
    (changes.foldl Change.apply (s.setTier serverID e tier)).getTier serverID e = tier := by
  have hrow : (changes.foldl Change.apply (s.setTier serverID e tier)).row serverID e =
      some ⟨serverID, e, tier, false⟩ := by
    refine foldlRecOn (motive := fun s => s.row serverID e = _) changes Change.apply ?_ ?_
    · simp [row_setTier]
    · exact fun s hr c hc => Change.row_apply (h c hc) hr rfl
  rw [AccessStore.getTier, hrow]
  rfl

theorem manual_tier_stays_listed :
    let tool : Endpoint := ⟨.tool, "read_file"⟩
    let found : EndpointInfo := ⟨tool, ""⟩
    ([.sync {} "s1" [found] fun _ => .read].foldl Change.apply
      (AccessStore.setTier ⟨[], .nil⟩ "s1" tool .admin)).getTier "s1" tool = .admin :=
  manual_tier_stays _ "s1" _ .admin [_] (by simp [Change.Spares])

end ArcRelay.Access
