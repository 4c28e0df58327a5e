import ArcRelay.Invite.Handlers

/-!
# An invite makes one account

The row of an invite is consumed and the account is inserted in one transaction, so the two
cannot come apart: a committed transaction has found the invite pending and has left it used,
and nothing makes it pending again.  An attempt has at most one such transaction, and it is
told of a failure exactly when it had none.

That the invite has not expired is read off two texts.  When clocks are set back, the wall clock
shows the times of an hour once more, and an invite that has expired in it is taken again.

* `NotSetBack`: the clock was not set back over the expiry.
* `invite_redeemed_once`, `expired_redeemed`: one account at most, and an invite that has expired.
-/

namespace ArcRelay.Invite

open Interleave Prog Access List Table

/-- The transaction of attempt `a` that has made the account `c`. -/
structure Redeems (hash : String → String) (a : Attempt) (c : Created) (t t' : Tables) : Prop where
  invite : c.invite ∈ t.invites
  token : c.invite.tokenHash = hash a.token
  pending : c.invite.status = .pending
  unexpired : c.time.textBefore c.invite.expiresAt = true
  role : c.user.role = c.invite.role
  accessLevel : c.user.accessLevel =
    if c.invite.role = "admin" then .admin else c.invite.accessLevel.getD .write
  profile : c.user.defaultProfileID = c.invite.profileID
  fresh : c.user.id ∉ t.directory.issued
  users : t'.directory.users = c.user :: t.directory.users
  issued : t'.issued = t.issued
  consumed : ∃ redeemed : Option String,
    t'.invites = Table.modify InviteToken.id c.invite.id
      (fun r => { r with status := .used, usedAt := some c.time, redeemedUserID := redeemed })
      t.invites

/-! ### The transaction -/

section

variable {hash : String → String} {e : Env} {t t' : Tables} {r : InviteToken}
  {rawToken username userID : String} {d d' : Directory} {now : Stamp} {profileID : Option String}
  {user : UserRow}

theorem redeemable_iff {tokenHash : String} :
    r.redeemable tokenHash now = true ↔
      r.tokenHash = tokenHash ∧ r.status = .pending ∧ now.textBefore r.expiresAt = true := by
  simp [InviteToken.redeemable, and_assoc]

theorem redeemable_iff_id {q : InviteToken} (hr : r ∈ t.invites)
    (hredeem : r.redeemable (hash rawToken) now = true) (hq : q ∈ t.invites) :
    q.redeemable (hash rawToken) now = true ↔ q.id = r.id := by
  constructor
  · intro h
    have hsame : q.tokenHash = r.tokenHash :=
      (redeemable_iff.mp h).1.trans (redeemable_iff.mp hredeem).1.symm
    have hqr := find_of_mem t.tokenHashes hq
    rw [hsame, find_of_mem t.tokenHashes hr] at hqr
    rw [Option.some.inj hqr]
  · intro h
    have hqr := find_of_mem t.inviteIDs hq
    rw [h, find_of_mem t.inviteIDs hr] at hqr
    rwa [← Option.some.inj hqr]

theorem validateAndConsumeTx_ok {invite : InviteToken}
    (h : validateAndConsumeTx hash e rawToken t = .ok (some (invite, t'))) :
    ∃ r, find InviteToken.tokenHash (hash rawToken) t.invites = some r ∧
      r.redeemable (hash rawToken) e.now = true ∧
      invite = { r with status := .used, usedAt := some e.now } ∧
      t' = t.consume (hash rawToken) e.now := by
  unfold validateAndConsumeTx at h
  cases hconsume : e.consumeErr with
  | some err => simp [hconsume] at h
  | none =>
  simp only [hconsume] at h
  split at h
  · cases h
  next hany =>
  cases hread : e.readErr with
  | some err => simp [hread] at h
  | none =>
  simp only [hread] at h
  rw [not_not, any_eq_true] at hany
  obtain ⟨r, hr, hredeem⟩ := hany
  have hhash : r.tokenHash = hash rawToken := (redeemable_iff.mp hredeem).1
  have hfind : find InviteToken.tokenHash (hash rawToken) t.invites = some r :=
    hhash ▸ find_of_mem t.tokenHashes hr
  have hafter : find InviteToken.tokenHash (hash rawToken)
      (t.consume (hash rawToken) e.now).invites =
        some { r with status := .used, usedAt := some e.now } := by
    rw [Tables.consume, Tables.mapInvites, find_map (fun q => by split <;> rfl), hfind,
      Option.map_some, if_pos hredeem]
  rw [hafter] at h
  simp only [Except.ok.injEq, Option.some.injEq, Prod.mk.injEq] at h
  exact ⟨r, hfind, hredeem, h.1.symm, h.2.symm⟩

theorem createWithAccessLevelTx_ok {role : String} {accessLevel : Option Tier}
    (h : createWithAccessLevelTx e username role accessLevel profileID d = .ok (d', user)) :
    user = ⟨e.userID, username, role, accountLevel role accessLevel, profileID⟩ ∧
      user.id ∉ d.issued ∧ d'.users = user :: d.users := by
  unfold createWithAccessLevelTx Directory.createWithAccessLevel at h
  cases hb : e.bcryptErr with
  | some err => simp [hb] at h
  | none =>
  cases hf : e.userErr with
  | some err => simp [hb, hf, exec] at h
  | none =>
  cases hins : Directory.insertUser
      ⟨e.userID, username, role, accountLevel role accessLevel, profileID⟩ d with
  | error err =>
    rw [accountLevel] at hins
    simp [hb, hf, exec, hins] at h
  | ok d1 =>
    obtain ⟨hfresh, husers, -⟩ := Directory.insertUser_ok hins
    rw [accountLevel] at hins
    simp only [hb, hf, exec, hins, Option.map_none, Except.ok.injEq, Prod.mk.injEq] at h
    obtain ⟨rfl, rfl⟩ := h
    exact ⟨rfl, hfresh, husers⟩

theorem createAPIKeyTx_ok (h : createAPIKeyTx hash e userID profileID d = .ok d') :
    d'.users = d.users := by
  unfold createAPIKeyTx Directory.createAPIKey at h
  cases hf : e.keyErr with
  | some err => simp [hf, exec] at h
  | none =>
  cases hins : Directory.insertKey ⟨e.keyID, userID, hash e.rawKey, profileID, false, []⟩ d with
  | error err => simp [hf, exec, hins] at h
  | ok d1 => ?_
  simp only [hf, exec, hins, Option.map_none, Except.ok.injEq] at h
  obtain rfl := h
  exact (Directory.insertKey_ok hins).1

theorem consume_then_setRedeemed (hr : r ∈ t.invites)
    (hredeem : r.redeemable (hash rawToken) e.now = true) :
    ∃ redeemed : Option String,
      (setRedeemedUserTx e r.id userID
        { t.consume (hash rawToken) e.now with directory := d }).invites =
        Table.modify InviteToken.id r.id
          (fun q => { q with status := .used, usedAt := some e.now, redeemedUserID := redeemed })
          t.invites := by
  have hrow : ∀ q ∈ t.invites, q.id = r.id → q = r := by
    intro q hq hid
    have hqr := find_of_mem t.inviteIDs hq
    rw [hid, find_of_mem t.inviteIDs hr] at hqr
    exact (Option.some.inj hqr).symm
  unfold setRedeemedUserTx Tables.consume Tables.mapInvites Table.modify
  cases e.redeemedErr with
  | some err =>
    refine ⟨r.redeemedUserID, map_congr_left fun q hq => ?_⟩
    by_cases hid : q.id = r.id
    · obtain rfl := hrow q hq hid
      rw [if_pos hredeem, if_pos rfl]
    · rw [if_neg hid, if_neg (mt (redeemable_iff_id hr hredeem hq).mp hid)]
  | none =>
    refine ⟨some userID, map_map.trans (map_congr_left fun q hq => ?_)⟩
    by_cases hid : q.id = r.id
    · obtain rfl := hrow q hq hid
      rw [Function.comp_apply, if_pos hredeem, if_pos rfl, if_pos rfl]
    · rw [Function.comp_apply, if_neg (mt (redeemable_iff_id hr hredeem hq).mp hid), if_neg hid,
        if_neg hid]

/-- **What a committed transaction has done.** -/
theorem redeemTx_ok {withKey : Bool} (a : Attempt) (i : ℕ) (htoken : a.token = rawToken)
    (h : redeemTx hash withKey username rawToken e t = .ok (t', user)) :
    ∃ r, find InviteToken.tokenHash (hash rawToken) t.invites = some r ∧
      Redeems hash a ⟨i, r, user, e.now⟩ t t' := by
  unfold redeemTx at h
  split at h
  · cases h
  · cases h
  next invite t1 hconsume =>
  obtain ⟨r, hfind, hredeem, rfl, rfl⟩ := validateAndConsumeTx_ok hconsume
  obtain ⟨hhash, hpending, hlt⟩ := redeemable_iff.mp hredeem
  have hr : r ∈ t.invites := mem_of_find hfind
  split at h
  · cases h
  next d user1 hcreate =>
  obtain ⟨huser, hfresh, husers⟩ := createWithAccessLevelTx_ok hcreate
  split at h
  · cases h
  next d' hkey =>
  have hkeep : d'.users = d.users := by
    cases withKey with
    | true => exact createAPIKeyTx_ok hkey
    | false => exact congrArg Directory.users (Except.ok.inj hkey).symm
  split at h
  · cases h
  simp only [Except.ok.injEq, Prod.mk.injEq] at h
  obtain ⟨rfl, rfl⟩ := h
  have hsame : ∀ s : Tables, (setRedeemedUserTx e r.id user1.id s).directory = s.directory ∧
      (setRedeemedUserTx e r.id user1.id s).issued = s.issued := by
    intro s
    unfold setRedeemedUserTx
    split <;> exact ⟨rfl, rfl⟩
  refine ⟨r, hfind, hr, hhash.trans (by rw [htoken]), hpending, hlt, ?_, ?_, ?_, hfresh, ?_, ?_,
    consume_then_setRedeemed hr hredeem⟩
  · rw [huser]
  · rw [huser]
    rfl
  · rw [huser]
  · rw [(hsame _).1]
    exact hkeep.trans husers
  · exact (hsame _).2

end

/-! ### The invariant -/

/-- Every account of the log came from an invite that is used now, or gone. -/
structure Inv (t₀ : Tables) (s : State) : Prop where
  once : (s.created.map fun c => c.invite.id).Nodup
  issued : ∀ c ∈ s.created, c.invite.id ∈ s.tables.issued
  used : ∀ c ∈ s.created, ∀ r ∈ s.tables.invites, r.id = c.invite.id → r.status = .used
  accounts : ∀ id ∈ s.tables.directory.users.map UserRow.id,
    id ∈ t₀.directory.users.map UserRow.id ∨ ∃ c ∈ s.created, c.user.id = id

def Guar (hash : String → String) (attempts : List Attempt) (i : ℕ) (s s' : State) : Prop :=
  s' = s ∨ ∃ c a, c.attempt = i ∧ attempts[i]? = some a ∧
    s'.created = c :: s.created ∧ Redeems hash a c s.tables s'.tables

/-- The others make no accounts in the name of attempt `i`. -/
def Rely (i : ℕ) (s s' : State) : Prop :=
  ∀ c, c.attempt = i → (c ∈ s'.created ↔ c ∈ s.created)

theorem Guar.refl (hash : String → String) (attempts : List Attempt) (i : ℕ) (s : State) :
    Guar hash attempts i s s := .inl rfl

theorem Rely.refl (i : ℕ) (s : State) : Rely i s s := fun _ _ => Iff.rfl

theorem Rely.trans {i : ℕ} {a b c : State} (hab : Rely i a b) (hbc : Rely i b c) : Rely i a c :=
  fun x hx => (hbc x hx).trans (hab x hx)

section

variable {hash : String → String} {attempts : List Attempt} {t₀ : Tables} {s s' : State} {i j : ℕ}
  {rawToken : String} {resp : Response} {c : Created}

theorem inv_start (t : Tables) : Inv t ⟨t, []⟩ :=
  ⟨nodup_nil, by simp, by simp, fun _ hid => .inl hid⟩

theorem Guar.rely (hij : i ≠ j) (h : Guar hash attempts i s s') : Rely j s s' := by
  intro x hx
  rcases h with rfl | ⟨c, a, hc, -, hcreated, -⟩
  · exact Iff.rfl
  rw [hcreated, mem_cons]
  refine or_iff_right ?_
  rintro rfl
  exact hij (hc.symm.trans hx)

theorem inv_guar (hs : Inv t₀ s) (h : Guar hash attempts i s s') : Inv t₀ s' := by
  rcases h with rfl | ⟨c, a, -, -, hcreated, hred⟩
  · exact hs
  obtain ⟨redeemed, hinvites⟩ := hred.consumed
  have hnew : ∀ c' ∈ s.created, c'.invite.id ≠ c.invite.id := by
    intro c' hc' heq
    have hused := hs.used c' hc' c.invite hred.invite heq.symm
    rw [hred.pending] at hused
    cases hused
  constructor
  · rw [hcreated, map_cons, nodup_cons]
    refine ⟨fun hmem => ?_, hs.once⟩
    obtain ⟨c', hc', heq⟩ := mem_map.mp hmem
    exact hnew c' hc' heq
  · rw [hcreated, hred.issued]
    exact forall_mem_cons.mpr ⟨s.tables.inviteIssued _ hred.invite, hs.issued⟩
  · rw [hcreated, hinvites]
    intro c' hc' r hr hid
    obtain ⟨q, hq, rfl⟩ := mem_map.mp hr
    by_cases hqc : q.id = c.invite.id
    · rw [if_pos hqc]
    rw [if_neg hqc] at hid ⊢
    rcases mem_cons.mp hc' with rfl | hc'
    · exact absurd hid hqc
    · exact hs.used c' hc' q hq hid
  · rw [hred.users, hcreated]
    intro id hid
    rcases mem_cons.mp hid with rfl | hid
    · exact .inr ⟨c, mem_cons_self, rfl⟩
    rcases hs.accounts id hid with hold | ⟨c', hc', heq⟩
    · exact .inl hold
    · exact .inr ⟨c', mem_cons_of_mem _ hc', heq⟩

theorem createAccountInvite_cases (t : Tables) (r : InviteToken) :
    t.createAccountInvite r = t ∨
      r.id ∉ t.issued ∧ (t.createAccountInvite r).invites = r :: t.invites ∧
        (t.createAccountInvite r).issued = r.id :: t.issued ∧
        (t.createAccountInvite r).directory = t.directory := by
  unfold Tables.createAccountInvite
  by_cases hnew : r.id ∉ t.issued ∧ r.tokenHash ∉ t.invites.map InviteToken.tokenHash
  · rw [dif_pos hnew]
    exact .inr ⟨hnew.1, rfl, rfl, rfl⟩
  · rw [dif_neg hnew]
    exact .inl rfl

theorem worldTables_rows (ev : WorldEvent) (t : Tables) :
    (∀ id ∈ t.issued, id ∈ (worldTables ev t).issued) ∧
      (∀ r ∈ (worldTables ev t).invites, r.id ∈ t.issued →
        ∃ q ∈ t.invites, q.id = r.id ∧ (q.status = .used → r.status = .used)) ∧
      ∀ id ∈ (worldTables ev t).directory.users.map UserRow.id,
        id ∈ t.directory.users.map UserRow.id := by
  -- an update of every row that leaves those alone that are used
  have hmap : ∀ (f : InviteToken → InviteToken), (∀ q, (f q).id = q.id) →
      (∀ q : InviteToken, q.status = .used → (f q).status = .used) →
      ∀ r ∈ t.invites.map f, r.id ∈ t.issued →
        ∃ q ∈ t.invites, q.id = r.id ∧ (q.status = .used → r.status = .used) := by
    intro f hid hused r hr _
    obtain ⟨q, hq, rfl⟩ := mem_map.mp hr
    exact ⟨q, hq, (hid q).symm, hused q⟩
  cases ev with
  | createAccountInvite id tokenHash role accessLevel profileID createdBy expiresAt =>
    rw [worldTables]
    rcases createAccountInvite_cases t _ with heq | ⟨hnew, hinvites, hissued, hdir⟩
    · rw [heq]
      exact ⟨fun _ h => h, fun r hr _ => ⟨r, hr, rfl, fun h => h⟩, fun _ h => h⟩
    rw [hinvites, hissued, hdir]
    refine ⟨fun _ h => mem_cons_of_mem _ h, fun r hr hid => ?_, fun _ h => h⟩
    rcases mem_cons.mp hr with rfl | hr
    · exact absurd hid hnew
    · exact ⟨r, hr, rfl, fun h => h⟩
  | deleteInvite id =>
    refine ⟨fun _ h => h, fun r hr _ => ?_, fun _ h => h⟩
    exact ⟨r, mem_of_mem_filter hr, rfl, fun h => h⟩
  | cleanupExpired now =>
    refine ⟨fun _ h => h, hmap _ (fun q => by split <;> rfl) fun q hq => ?_, fun _ h => h⟩
    rw [if_neg]
    · exact hq
    rintro ⟨hpending, -⟩
    rw [hq] at hpending
    cases hpending
  | deleteProfile id =>
    refine ⟨fun _ h => h, hmap _ (fun _ => rfl) fun _ hq => hq, fun uid huid => ?_⟩
    obtain ⟨u, hu, rfl⟩ := mem_map.mp huid
    obtain ⟨u', hu', rfl⟩ := mem_map.mp hu
    exact mem_map.mpr ⟨u', hu', rfl⟩
  | deleteUser id =>
    rw [worldTables]
    by_cases hmade : (t.invites.any fun r => r.createdBy = id) = true
    · rw [if_pos hmade]
      exact ⟨fun _ h => h, fun r hr _ => ⟨r, hr, rfl, fun h => h⟩, fun _ h => h⟩
    rw [if_neg hmade]
    refine ⟨fun _ h => h, hmap _ (fun _ => rfl) fun _ hq => hq, fun uid huid => ?_⟩
    obtain ⟨u, hu, rfl⟩ := mem_map.mp huid
    exact mem_map_of_mem (mem_of_mem_filter hu)

theorem inv_world (ev : WorldEvent) (hs : Inv t₀ s) : Inv t₀ (world ev s) := by
  obtain ⟨hissued, hrows, husers⟩ := worldTables_rows ev s.tables
  refine ⟨hs.once, fun c hc => hissued _ (hs.issued c hc), fun c hc r hr hid => ?_,
    fun id hid => hs.accounts id (husers id hid)⟩
  obtain ⟨q, hq, hqr, hused⟩ := hrows r hr (hid ▸ hs.issued c hc)
  exact hused (hs.used c hc q hq (hqr.trans hid))

/-! ### The attempts -/

def Untouched (i : ℕ) (s : State) : Prop := ∀ c ∈ s.created, c.attempt ≠ i

/-- The client is told of a failure exactly if there is no account. -/
def Told (i : ℕ) (resp : Response) (s : State) : Prop := resp.failed = true ↔ Untouched i s

theorem Untouched.rely (h : Untouched i s) (hR : Rely i s s') : Untouched i s' := by
  intro c hc hi
  exact h c ((hR c hi).mp hc) hi

abbrev Fine (hash : String → String) (attempts : List Attempt) (t₀ : Tables) (i : ℕ)
    (p : Run Response) (s : State) : Prop :=
  p.Safe (Inv t₀) (Rely i) (Guar hash attempts i) (Told i) s

theorem fine_failed (hs : Untouched i s) (h : resp.failed = true) :
    Fine hash attempts t₀ i (pure resp) s :=
  fun _ hR _ => ⟨fun _ => hs.rely hR, fun _ => h⟩

theorem fine_done (hc : c ∈ s.created) (hi : c.attempt = i) (h : resp.failed = false) :
    Fine hash attempts t₀ i (pure resp) s := by
  intro s' hR _
  have hc' : c ∈ s'.created := (hR c hi).mpr hc
  refine ⟨fun hfailed => ?_, fun hun => absurd hi (hun c hc')⟩
  rw [h] at hfailed
  cases hfailed

theorem fine_observe {β : Type} {f : Env → β} {k : β → Run Response} (hs : Untouched i s)
    (h : ∀ b s', Untouched i s' → Fine hash attempts t₀ i (k b) s') :
    Fine hash attempts t₀ i (Prog.observe f >>= k) s :=
  safe_observe_bind (Guar.refl hash attempts i) fun s' hR _ e => h (f e) s' (hs.rely hR)

theorem fine_peek {k : Except String (Option InviteToken) → Run Response} (hs : Untouched i s)
    (h : ∀ b s', Untouched i s' → Fine hash attempts t₀ i (k b) s') :
    Fine hash attempts t₀ i (peek hash rawToken >>= k) s :=
  safe_attempt_bind (Guar.refl hash attempts i) fun s' hR hI =>
    ⟨fun d => h (.error d) s' (hs.rely hR), fun _ => ⟨hI, .inl rfl, h (.ok _) s' (hs.rely hR)⟩⟩

theorem fine_renderErr {msg : String} (hs : Untouched i s) :
    Fine hash attempts t₀ i (renderErr hash rawToken msg) s := by
  refine fine_peek hs fun b s' hs' => ?_
  split
  · exact fine_failed hs' rfl
  · exact fine_failed hs' rfl

theorem fine_redeem {a : Attempt} {withKey : Bool} {username : String}
    {k : Except TxError (UserRow × String) → Run Response} (hi : attempts[i]? = some a)
    (htoken : a.token = rawToken) (hs : Untouched i s)
    (herr : ∀ err s', Untouched i s' → Fine hash attempts t₀ i (k (.error err)) s')
    (hok : ∀ user s' c, c ∈ s'.created → c.attempt = i →
      Fine hash attempts t₀ i (k (.ok user)) s') :
    Fine hash attempts t₀ i (redeem hash i withKey username rawToken >>= k) s := by
  refine safe_act_bind.mpr fun s' hR hI e => ?_
  cases htx : redeemTx hash withKey username rawToken e s'.tables with
  | error err => exact ⟨hI, .inl rfl, herr err s' (hs.rely hR)⟩
  | ok result => ?_
  obtain ⟨t, user⟩ := result
  obtain ⟨r, hfind, hred⟩ := redeemTx_ok a i htoken htx
  have hG : Guar hash attempts i s' ⟨t, ⟨i, r, user, e.now⟩ :: s'.created⟩ :=
    .inr ⟨_, a, rfl, hi, rfl, hred⟩
  simp only [hfind, Option.map_some, Option.toList_some, singleton_append]
  exact ⟨inv_guar hI hG, hG, hok _ _ _ mem_cons_self rfl⟩

theorem fine_login (hc : c ∈ s.created) (hi : c.attempt = i) : Fine hash attempts t₀ i login s := by
  refine safe_observe_bind (Guar.refl hash attempts i) fun s1 hR1 _ e1 => ?_
  have hc1 : c ∈ s1.created := (hR1 c hi).mpr hc
  cases e1.generateErr with
  | some err => exact fine_done hc1 hi rfl
  | none => ?_
  refine safe_observe_bind (Guar.refl hash attempts i) fun s2 hR2 _ e2 => ?_
  have hc2 : c ∈ s2.created := (hR2 c hi).mpr hc1
  cases e2.storeErr with
  | some _ | none => exact fine_done hc2 hi rfl

theorem fine_exchange {r : ExchangeRequest} (hi : attempts[i]? = some (.exchange r))
    (hs : Untouched i s) : Fine hash attempts t₀ i (handleInviteExchange hash i r) s := by
  refine fine_observe hs fun limited s1 hs1 => ?_
  split
  · exact fine_failed hs1 rfl
  split
  · exact fine_failed hs1 rfl
  split
  · exact fine_failed hs1 rfl
  split
  · exact fine_failed hs1 rfl
  split
  · exact fine_failed hs1 rfl
  refine fine_observe hs1 fun beginErr s2 hs2 => ?_
  cases beginErr with
  | some err => exact fine_failed hs2 rfl
  | none => ?_
  refine fine_redeem hi rfl hs2 (fun err s3 hs3 => ?_) fun user s3 c hc hci => ?_
  · cases err with
    | creatingUser err =>
      dsimp only
      split <;> exact fine_failed hs3 rfl
    | consuming _ | invalid | creatingKey _ | committing _ => exact fine_failed hs3 rfl
  · exact fine_done hc hci rfl

theorem fine_form {r : RedeemRequest} (hi : attempts[i]? = some (.redeem r))
    (hs : Untouched i s) : Fine hash attempts t₀ i (handleInviteRedeem hash i r) s := by
  unfold handleInviteRedeem
  split
  · exact fine_failed hs rfl
  split
  · refine fine_peek hs fun invite s1 hs1 => ?_
    cases invite with
    | error _ | ok _ => exact fine_failed hs1 rfl
  split
  · exact fine_failed hs rfl
  split
  · exact fine_renderErr hs
  split
  · exact fine_renderErr hs
  split
  · exact fine_renderErr hs
  refine fine_observe hs fun beginErr s2 hs2 => ?_
  cases beginErr with
  | some err => exact fine_failed hs2 rfl
  | none => ?_
  refine fine_redeem hi rfl hs2 (fun err s3 hs3 => ?_) fun user s3 c hc hci => ?_
  · cases err with
    | creatingUser err =>
      dsimp only
      split <;> exact fine_renderErr hs3
    | consuming _ | invalid | creatingKey _ | committing _ => exact fine_failed hs3 rfl
  · exact fine_login hc hci

theorem redemptions_safe (t : Tables) :
    (redemptions hash t attempts).AllSafe (Inv t) Rely (Guar hash attempts) Told := by
  refine Pool.allSafe_mapIdx (inv_start t) fun i a ha => ?_
  have hs : Untouched i ⟨t, []⟩ := by simp [Untouched]
  cases a with
  | exchange r => exact fine_exchange ha hs
  | redeem r => exact fine_form ha hs

end

/-! ### Every run -/

section

variable (hash : String → String) (t : Tables) (attempts : List Attempt)

abbrev after (sched : List (Event WorldEvent Env)) : State :=
  ((redemptions hash t attempts).exec world sched).state

theorem run_safe (sched : List (Event WorldEvent Env)) :
    ((redemptions hash t attempts).exec world sched).AllSafe (Inv t) Rely (Guar hash attempts)
      Told :=
  Pool.exec_safe Rely.refl (fun _ _ _ _ => Rely.trans) (fun _ _ hij _ _ _ => Guar.rely hij)
    (fun ev _ hs => ⟨inv_world ev hs, fun _ _ _ => Iff.rfl⟩) (redemptions_safe t) sched

theorem step_guar (sched : List (Event WorldEvent Env)) (i : ℕ) (e : Env) :
    Guar hash attempts i (after hash t attempts sched)
      (after hash t attempts (sched ++ [.run i e])) := by
  have h := (run_safe hash t attempts sched).guarantee world Rely.refl (Guar.refl hash attempts) i e
  rwa [after, after, Pool.exec_append]

theorem created_mono (sched rest : List (Event WorldEvent Env)) {c : Created}
    (hc : c ∈ (after hash t attempts sched).created) :
    c ∈ (after hash t attempts (sched ++ rest)).created := by
  rw [after, Pool.exec_append]
  refine Pool.exec_within (T := fun s s' => ∀ c ∈ s.created, c ∈ s'.created) Rely.refl
    (fun _ _ _ _ => Rely.trans) (fun _ _ hij _ _ _ => Guar.rely hij)
    (fun ev _ hs => ⟨inv_world ev hs, fun _ _ _ => Iff.rfl⟩) (fun _ _ h => h)
    (fun _ _ _ hab hbc c h => hbc c (hab c h)) (fun i s s' _ hG => ?_) (fun _ _ _ _ h => h)
    (run_safe hash t attempts sched) rest c hc
  rcases hG with rfl | ⟨c', a, -, -, hcreated, -⟩
  · exact fun _ h => h
  rw [hcreated]
  exact fun _ h => mem_cons_of_mem _ h

theorem created_redeems (sched : List (Event WorldEvent Env)) :
    ∀ c ∈ (after hash t attempts sched).created,
      ∃ a, attempts[c.attempt]? = some a ∧ ∃ t1 t2, Redeems hash a c t1 t2 := by
  induction sched using List.reverseRecOn with
  | nil => intro c hc; cases hc
  | append_singleton sched ev ih => ?_
  cases ev with
  | env ev =>
    intro c hc
    rw [after, Pool.exec_append] at hc
    exact ih c hc
  | run i e =>
    rcases step_guar hash t attempts sched i e with heq | ⟨c', a, rfl, ha, hcreated, hred⟩
    · rw [heq]
      exact ih
    · rw [hcreated]
      exact forall_mem_cons.mpr ⟨⟨a, ha, _, _, hred⟩, ih⟩

/-- Once the time `s` has passed, its text has too: the clock has not been set back over it. -/
def NotSetBack (s now : Stamp) : Prop :=
  s.instant ≤ now.instant →
    s.wall < now.wall ∨ s.wall = now.wall ∧ offsetBefore now.offset s.offset = false

theorem unexpired_iff {now expiresAt : Stamp} (h : now.textBefore expiresAt = true) :
    now.instant < expiresAt.instant ↔ NotSetBack expiresAt now := by
  constructor
  · exact fun hlt hle => absurd hle (Int.not_le.mpr hlt)
  intro hback
  by_contra hexpired
  simp only [Stamp.textBefore, Bool.or_eq_true, Bool.and_eq_true, decide_eq_true_eq] at h
  rcases hback (Int.not_lt.mp hexpired) with hlt | ⟨heq, hoffset⟩
  · omega
  · rw [hoffset] at h
    simp only [Bool.false_eq_true, and_false, or_false] at h
    omega

/-- **An invite makes at most one account**, the one it records, while it is pending, whatever
attempts are made at once, and it has not expired if and only if the clock has not been set back
over its end; each step of an attempt makes such an account or leaves everything as it was, and an
attempt that is told of a failure has changed nothing. -/
theorem invite_redeemed_once (sched : List (Event WorldEvent Env)) :
    ((after hash t attempts sched).created.map fun c => c.invite.id).Nodup ∧
      (∀ c ∈ (after hash t attempts sched).created,
        c.invite.status = .pending ∧
          (c.time.instant < c.invite.expiresAt.instant ↔ NotSetBack c.invite.expiresAt c.time) ∧
          (∃ a, attempts[c.attempt]? = some a ∧ c.invite.tokenHash = hash a.token) ∧
          c.user.role = c.invite.role ∧
          c.user.accessLevel =
            (if c.invite.role = "admin" then .admin else c.invite.accessLevel.getD .write) ∧
          c.user.defaultProfileID = c.invite.profileID) ∧
      (∀ u ∈ (after hash t attempts sched).tables.directory.users,
        u.id ∈ t.directory.users.map UserRow.id ∨
          ∃ c ∈ (after hash t attempts sched).created, c.user.id = u.id) ∧
      (∀ i e, Guar hash attempts i (after hash t attempts sched)
        (after hash t attempts (sched ++ [.run i e]))) ∧
      ∀ i resp, ((redemptions hash t attempts).exec world sched).result i = some resp →
        (resp.failed = true ↔ ∀ c ∈ (after hash t attempts sched).created, c.attempt ≠ i) ∧
          (resp.failed = true → ∀ before e rest, sched = before ++ .run i e :: rest →
            after hash t attempts (before ++ [.run i e]) = after hash t attempts before) := by
  have hsafe := run_safe hash t attempts sched
  refine ⟨hsafe.inv.once, fun c hc => ?_, fun u hu => ?_, step_guar hash t attempts sched,
    fun i resp hresp => ?_⟩
  · obtain ⟨a, ha, t1, t2, hred⟩ := created_redeems hash t attempts sched c hc
    exact ⟨hred.pending, unexpired_iff hred.unexpired, ⟨a, ha, hred.token⟩, hred.role,
      hred.accessLevel, hred.profile⟩
  · exact hsafe.inv.accounts u.id (mem_map_of_mem hu)
  have htold : Told i resp (after hash t attempts sched) :=
    hsafe.post Rely.refl hresp
  refine ⟨htold, fun hfailed before e rest hsched => ?_⟩
  rcases step_guar hash t attempts before i e with heq | ⟨c, a, hc, -, hcreated, -⟩
  · exact heq
  -- the entry would still be in the log
  have hmem : c ∈ (after hash t attempts (before ++ [.run i e])).created := by
    rw [hcreated]
    exact mem_cons_self
  have hlater := created_mono hash t attempts (before ++ [.run i e]) rest hmem
  rw [append_assoc, singleton_append, ← hsched] at hlater
  exact absurd hc (htold.mp hfailed c hlater)

end

/-! ### Clocks that are set back -/

/-- One profile, and no users yet. -/
def noUsers : Directory where
  users := []
  keys := []
  profiles := ["readers"]
  servers := ["files"]
  permissions := [⟨"readers", "files", ⟨.tool, "read"⟩⟩]
  issued := []
  userIDs := .nil
  usernames := .nil
  userIssued := List.forall_mem_nil _
  userRoles := List.forall_mem_nil _
  userProfiles := List.forall_mem_nil _
  keyIDs := .nil
  keyUsers := List.forall_mem_nil _
  keyProfiles := List.forall_mem_nil _
  permissionKeys := List.nodup_singleton _
  permissionProfiles := List.forall_mem_singleton.mpr (List.mem_singleton_self _)
  permissionServers := List.forall_mem_singleton.mpr (List.mem_singleton_self _)

/-- One invite, which expires at half past two in summer. -/
def summerInvite : Tables where
  directory := noUsers
  invites :=
    [{ id := "i1", tokenHash := "token", role := "user", accessLevel := none, profileID := none
       createdBy := "admin", expiresAt := { instant := 0, offset := 7200 } }]
  issued := ["i1"]
  inviteIDs := by decide
  tokenHashes := by decide
  inviteIssued := by decide

def exchangeToken : Attempt :=
  .exchange { method := "POST", token := "token", username := "bob", password := "password" }

/-- **An expired invite is redeemed**: forty minutes later it is ten past two, in winter. -/
theorem expired_redeemed :
    ∃ c ∈ (after id summerInvite [exchangeToken] (replicate 3
        (.run 0 { now := { instant := 2400, offset := 3600 }, userID := "u1" }))).created,
      c.invite.expiresAt.instant ≤ c.time.instant := by
  decide +kernel

end ArcRelay.Invite
