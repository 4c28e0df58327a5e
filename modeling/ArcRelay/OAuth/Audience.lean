import ArcRelay.OAuth.Requests

/-!
# Tokens stay with their URL

An access token is meant for the server it was obtained for.  The relay keeps tokens by the id
of the server, in memory and in the row, and an edit of the server keeps the tokens that are in
the row when it writes another URL.  So a token that was obtained while the row had one URL is
sent to another, once the server is started again.  And as long as it is not started again, a
token that is obtained for the new URL is sent to the old one.

These are the only ways.  If every edit that changes the URL finds no token, in the row or in
memory, and every request is made through a proxy that has the URL of the row, then every token
that is sent was obtained while the row had the URL it is sent to.

The proof is about one operation at a time.  While an operation runs, the row keeps its URL,
and the tokens in the row and in memory are known: they were obtained for that URL before, or a
token endpoint has answered with them since (`Kept`).

* `Careful`: the condition on edits and requests.
* `tokens_stay`, `token_strays`: the theorem, and two runs without the condition.
-/

namespace ArcRelay.OAuth.Audience

open Interleave List

open Prog (safe_pure safe_true)

/-! ### Known tokens -/

/-- The token was obtained before, or since. -/
def Known (O : String → Prop) (s : State) (t : String) : Prop := O t ∨ t ∈ replies s.log

/-- The configuration has the URL, and a known token or none. -/
structure Fit (U : String) (O : String → Prop) (cfg : RemoteConfig) (s : State) : Prop where
  url : cfg.url = U
  token : cfg.auth.accessToken = "" ∨ Known O s cfg.auth.accessToken

structure Kept (U : String) (O : String → Prop) (s : State) : Prop where
  row : Fit U O s.config s
  memory : ∀ ts, s.tokens = some ts → Known O s ts.accessToken

def Grows (s s' : State) : Prop := replies s.log ⊆ replies s'.log

theorem grows_refl (s : State) : Grows s s := .refl _

theorem grows_of_cons {s s' : State} {e : Entry} (h : s'.log = e :: s.log) : Grows s s' := by
  rw [Grows, h]
  intro t ht
  obtain ⟨x, hx, hxt⟩ := mem_filterMap.mp ht
  exact mem_filterMap.mpr ⟨x, mem_cons_of_mem _ hx, hxt⟩

theorem mem_replies {i : ℕ} {url : String} {data : List (String × String)}
    {reply : Except String TokenSet} {unheard : Bool} {log : List Entry} {ts : TokenSet}
    (h : reply = .ok ts) :
    ts.accessToken ∈ replies (.requested i url data reply unheard :: log) := by
  rw [h]
  exact mem_cons_self ..

section

variable {U : String} {O : String → Prop} {s s' : State} {t : String} {cfg : RemoteConfig}
  {ts : TokenSet}

theorem Known.grows (h : Known O s t) (hR : Grows s s') : Known O s' t := h.imp id fun ht => hR ht

variable (h : Fit U O cfg s)

include h

theorem Fit.grows (hR : Grows s s') : Fit U O cfg s' :=
  ⟨h.url, h.token.imp id fun ht => ht.grows hR⟩

theorem Fit.loadTokens {m : Manager} (hts : loadTokens m cfg = some ts) :
    Known O s ts.accessToken := by
  unfold OAuth.loadTokens at hts
  split at hts
  · cases hts
  next hne =>
  cases hts
  exact h.token.resolve_left hne

theorem Fit.withTokens (m : Manager) (hts : Known O s ts.accessToken) :
    Fit U O (cfg.withTokens m ts) s := ⟨h.url, .inr hts⟩

theorem Fit.cleared : Fit U O cfg.cleared s := ⟨h.url, .inl rfl⟩

theorem Fit.rediscovered (disc : OAuthDiscovery) :
    Fit U O (cfg.rediscovered disc) s := ⟨h.url, h.token⟩

theorem Fit.reregistered (callbackURL regEndpoint : String)
    (disc : Option OAuthDiscovery) (reg : ClientRegistration) :
    Fit U O (cfg.reregistered callbackURL regEndpoint disc reg) s := ⟨h.url, .inl rfl⟩

end

/-! ### Single steps -/

section

variable {U : String} {O : String → Prop} {s : State} {α β ε : Type} {Q : α → State → Prop} {i : ℕ}
  {ts : Option TokenSet} {a : α} {cfg : RemoteConfig}

/-- The program keeps to known tokens, whatever else is obtained meanwhile. -/
abbrev Sound (U : String) (O : String → Prop) (Q : α → State → Prop) (p : Prog State ε α)
    (s : State) : Prop :=
  p.Safe (Kept U O) Grows Grows Q s

theorem sound_bind {P : β → State → Prop} {p : Prog State ε β} {f : β → Prog State ε α}
    (hp : Sound U O P p s) (hf : ∀ b t, Kept U O t → P b t → Sound U O Q (f b) t) :
    Sound U O Q (p >>= f) s :=
  Prog.safe_bind grows_refl hp hf

theorem Sound.since {p : Prog State ε α} (hp : Sound U O Q p s) :
    Sound U O (fun a t => Grows s t ∧ Q a t) p s :=
  Prog.Safe.within (T := Grows) (fun _ _ _ h h' => List.Subset.trans h h') (fun _ _ h => h)
    (fun _ _ h => h) hp (grows_refl s)

theorem Kept.of_eq {s' : State} (h : Kept U O s) (hconfig : s'.config = s.config)
    (htokens : s'.tokens = s.tokens) (hR : Grows s s') : Kept U O s' := by
  refine ⟨?_, fun ts hts => (h.memory ts (htokens.symm.trans hts)).grows hR⟩
  rw [hconfig]
  exact h.row.grows hR

theorem Kept.note (h : Kept U O s) (e : Entry) :
    Kept U O { s with log := e :: s.log } ∧ Grows s { s with log := e :: s.log } :=
  ⟨h.of_eq rfl rfl (grows_of_cons rfl), grows_of_cons rfl⟩

theorem sound_quiet_bind {f : State → ε → State × β} {k : β → Prog State ε α}
    (hf : ∀ s e, (f s e).1.config = s.config ∧ (f s e).1.tokens = s.tokens ∧ (f s e).1.log = s.log)
    (hk : ∀ t, Grows s t → Kept U O t → ∀ e, Kept U O (f t e).1 → Grows s (f t e).1 →
      Sound U O Q (k (f t e).2) (f t e).1) : Sound U O Q (Prog.act f >>= k) s := by
  refine Prog.safe_act_bind.mpr fun t hR hI e => ?_
  obtain ⟨hconfig, htokens, hlog⟩ := hf t e
  have hG : Grows t (f t e).1 := by
    rw [Grows, hlog]
    exact .refl _
  have hI' := hI.of_eq hconfig htokens hG
  exact ⟨hI', hG, hk t hR hI e hI' (List.Subset.trans hR hG)⟩

theorem sound_observe_bind {f : ε → β} {k : β → Prog State ε α}
    (hk : ∀ t, Grows s t → Kept U O t → ∀ b, Sound U O Q (k b) t) :
    Sound U O Q (Prog.observe f >>= k) s :=
  Prog.safe_observe_bind grows_refl fun t hR hI e => hk t hR hI (f e)

theorem sound_getTokens_bind {k : Option TokenSet → Run α}
    (hk : ∀ t, Grows s t → Kept U O t → Sound U O Q (k t.tokens) t) :
    Sound U O Q (Prog.get State.tokens >>= k) s :=
  sound_quiet_bind (fun _ _ => ⟨rfl, rfl, rfl⟩) fun t hR hI _ _ _ => hk t hR hI

theorem sound_getConfig_bind {k : Except String RemoteConfig → Run α}
    (herr : ∀ t err, Grows s t → Kept U O t → Sound U O Q (k (.error err)) t)
    (hok : ∀ t cfg, Grows s t → Kept U O t → Fit U O cfg t → Sound U O Q (k (.ok cfg)) t) :
    Sound U O Q (getConfig >>= k) s :=
  Prog.safe_attempt_bind grows_refl fun t hR hI =>
    ⟨fun err => herr t err hR hI, fun _ => ⟨hI, grows_refl t, hok t t.config hR hI hI.row⟩⟩

theorem sound_tokenRequest_bind {url : String} {data : List (String × String)}
    {k : Except String TokenSet → Run α}
    (hk : ∀ t reply, Grows s t → Kept U O t →
      (∀ ts, reply = .ok ts → Known O t ts.accessToken) → Sound U O Q (k reply) t) :
    Sound U O Q (tokenRequest i url data >>= k) s := by
  refine Prog.safe_act_bind.mpr fun t hR hI e => ?_
  obtain ⟨hI', hG⟩ := hI.note (.requested i url data (e.token.tokenSet e.now) e.unheard)
  exact ⟨hI', hG, hk _ _ (List.Subset.trans hR hG) hI' fun ts hts => .inr (mem_replies hts)⟩

theorem sound_updateConfig_bind {settles : Bool} {k : Except String Unit → Run α}
    (hcfg : Fit U O cfg s) (hk : ∀ t r, Grows s t → Kept U O t → Sound U O Q (k r) t) :
    Sound U O Q (updateConfig i settles cfg >>= k) s := by
  refine Prog.safe_act_bind.mpr fun t hR hI e => ?_
  cases e.storeErr with
  | some err =>
    obtain ⟨hI', hG⟩ := hI.note (.unsaved i)
    exact ⟨hI', hG, hk _ _ (List.Subset.trans hR hG) hI'⟩
  | none => ?_
  have hG : Grows t { t with
      config := cfg, log := .wrote i settles (.config t.config cfg) :: t.log } :=
    grows_of_cons rfl
  have hI' : Kept U O { t with
      config := cfg, log := .wrote i settles (.config t.config cfg) :: t.log } :=
    ⟨hcfg.grows (List.Subset.trans hR hG), fun ts hts => (hI.memory ts hts).grows hG⟩
  exact ⟨hI', hG, hk _ _ (List.Subset.trans hR hG) hI'⟩

variable {k : Unit → Run α} (hts : ∀ x, ts = some x → Known O s x.accessToken)
  (hk : ∀ t, Grows s t → Kept U O t → Sound U O Q (k ()) t)

include hts hk

theorem sound_write_bind {f : State → State} (entries : List Entry)
    (hf : ∀ t, (f t).config = t.config ∧ (f t).tokens = ts ∧ (f t).log = entries ++ t.log) :
    Sound U O Q (Prog.set f >>= k) s := by
  refine Prog.safe_act_bind.mpr fun t hR hI e => ?_
  obtain ⟨hconfig, htokens, hlog⟩ := hf t
  have hG : Grows t (f t) := by
    rw [Grows, hlog, replies, replies, filterMap_append]
    exact subset_append_right _ _
  have hI' : Kept U O (f t) := by
    refine ⟨?_, fun x hx => (hts x (htokens.symm.trans hx)).grows (List.Subset.trans hR hG)⟩
    rw [hconfig]
    exact hI.row.grows hG
  exact ⟨hI', hG, hk _ (List.Subset.trans hR hG) hI'⟩

theorem sound_setTokens_bind : Sound U O Q (setTokens i ts >>= k) s :=
  sound_write_bind hts hk [_] fun _ => ⟨rfl, rfl, rfl⟩

theorem sound_settle_bind : Sound U O Q (settle i cfg ts >>= k) s :=
  sound_write_bind hts hk [_, _] fun _ => ⟨rfl, rfl, rfl⟩

end

/-! ### The manager -/

section

variable {m : Manager} {U : String} {O : String → Prop} {s : State} {cfg : RemoteConfig} (i : ℕ)

abbrev Nothing {α : Type} (_ : α) (_ : State) : Prop := True

theorem handleCallback_kept (state code : String) :
    Sound U O Nothing (handleCallback m i state code) s := by
  refine sound_quiet_bind (fun t e => ?_) fun t _ _ e hI _ => ?_
  · cases t.pending.find? fun pa => pa.state = state with
    | none | some => exact ⟨rfl, rfl, rfl⟩
  split
  · exact safe_true
  split
  · exact safe_true
  refine sound_getConfig_bind (fun _ _ _ _ => safe_true) fun t' cfg _ _ hcfg => ?_
  refine sound_tokenRequest_bind fun t'' reply hR _ hreply => ?_
  cases reply with
  | error err => exact safe_true
  | ok ts => ?_
  have hts := hreply ts rfl
  refine sound_updateConfig_bind ((hcfg.grows hR).withTokens m hts) fun t3 r hR3 _ => ?_
  cases r with
  | error err => exact safe_true
  | ok _ => ?_
  refine sound_settle_bind ?_ fun _ _ _ => safe_true
  rintro x ⟨rfl⟩
  exact hts.grows hR3

theorem discover_kept (urls : List String) : Sound U O Nothing (discover urls) s := by
  induction urls generalizing s with
  | nil => exact safe_true
  | cons url urls ih => ?_
  rw [discover]
  split
  · exact ih
  refine sound_observe_bind fun t _ _ d => ?_
  split
  · split
    · exact ih
    · exact safe_true
  · exact ih

theorem discoverIfNeeded_kept (cfg : RemoteConfig) :
    Sound U O Nothing (discoverIfNeeded cfg) s := by
  unfold discoverIfNeeded
  split
  · exact discover_kept _
  · exact safe_true

theorem register_kept (disc : Option OAuthDiscovery) (regEndpoint : String)
    (hcfg : Fit U O cfg s) : Sound U O Nothing (register m i cfg disc regEndpoint) s := by
  refine sound_observe_bind fun t hR _ reg => ?_
  cases reg with
  | error err => exact safe_true
  | ok reg => ?_
  refine sound_updateConfig_bind ((hcfg.grows hR).reregistered _ _ _ _) fun t' r _ _ => ?_
  cases r with
  | error err => exact safe_true
  | ok _ => exact sound_settle_bind nofun fun _ _ _ => safe_true

theorem reRegisterIfNeeded_kept (force : Bool) (hcfg : Fit U O cfg s) :
    Sound U O Nothing (reRegisterIfNeeded m i cfg force) s := by
  unfold reRegisterIfNeeded
  split
  · exact safe_true
  refine sound_bind (discoverIfNeeded_kept cfg).since fun disc t _ ⟨hR, _⟩ => ?_
  have hcfg' := hcfg.grows hR
  split
  · split
    · split
      · exact safe_true
      · exact safe_true
    · exact register_kept i _ _ hcfg'
  · exact register_kept i _ _ hcfg'

theorem reRegister_kept (force : Bool) : Sound U O Nothing (reRegister m i force) s := by
  refine sound_getConfig_bind (fun _ _ _ _ => safe_true) fun t cfg _ _ hcfg => ?_
  dsimp only
  split
  · exact safe_true
  · exact reRegisterIfNeeded_kept i force hcfg

theorem clearTokens_kept (hcfg : Fit U O cfg s) : Sound U O Nothing (clearTokens i cfg) s :=
  sound_updateConfig_bind hcfg.cleared fun _ _ _ _ =>
    sound_setTokens_bind nofun fun _ _ _ => safe_true

theorem rediscover_kept (data : List (String × String)) (err : String)
    (hcfg : Fit U O cfg s) :
    Sound U O (fun r t => Fit U O r.1 t ∧ ∀ ts, r.2 = .ok ts → Known O t ts.accessToken)
      (rediscover i cfg data err) s := by
  have hfailed : ∀ t, Grows s t → Sound U O (fun r t => Fit U O r.1 t ∧
      ∀ ts, r.2 = .ok ts → Known O t ts.accessToken)
      (pure (cfg, .error err) : Run (RemoteConfig × Except String TokenSet)) t :=
    fun t hR => safe_pure fun t' hR' => ⟨hcfg.grows (List.Subset.trans hR hR'), nofun⟩
  refine sound_observe_bind fun t hR _ d => ?_
  split
  · split
    · refine sound_updateConfig_bind ((hcfg.grows hR).rediscovered _) fun t' _ hR' _ => ?_
      refine sound_tokenRequest_bind fun t'' reply hR'' _ hreply => ?_
      refine safe_pure fun t3 hR3 => ⟨?_, fun ts hts => (hreply ts hts).grows hR3⟩
      exact (((hcfg.grows hR).rediscovered _).grows hR').grows (List.Subset.trans hR'' hR3)
    · exact hfailed t hR
  · exact hfailed t hR

theorem finishRefresh_kept (ts : TokenSet) (hcfg : Fit U O cfg s)
    {reply : Except String TokenSet} (hreply : ∀ ts, reply = .ok ts → Known O s ts.accessToken) :
    Sound U O Nothing (finishRefresh m i cfg ts reply) s := by
  cases reply with
  | error err =>
    rw [finishRefresh]
    split
    · exact sound_bind (clearTokens_kept i hcfg) fun _ _ _ _ => safe_true
    · exact safe_true
  | ok newTS => ?_
  have hts := hreply newTS rfl
  refine sound_updateConfig_bind (hcfg.withTokens m hts) fun t r hR _ => ?_
  cases r with
  | error err => exact safe_true
  | ok _ => ?_
  refine sound_setTokens_bind ?_ fun _ _ _ => safe_true
  rintro x ⟨rfl⟩
  exact hts.grows hR

theorem doRefreshToken_kept (ts : Option TokenSet) :
    Sound U O Nothing (doRefreshToken m i ts) s := by
  unfold doRefreshToken
  split
  · exact safe_true
  split
  · exact safe_true
  refine sound_getConfig_bind (fun _ _ _ _ => safe_true) fun t cfg _ _ hcfg => ?_
  refine sound_tokenRequest_bind fun t' reply hR _ hreply => ?_
  have hcfg' := hcfg.grows hR
  cases reply with
  | ok newTS => exact finishRefresh_kept i _ hcfg' hreply
  | error err => ?_
  dsimp only
  split
  · exact sound_bind (rediscover_kept i _ err hcfg') fun r _ _ h => finishRefresh_kept i _ h.1 h.2
  · exact finishRefresh_kept i _ hcfg' nofun

theorem refreshToken_kept : Sound U O Nothing (refreshToken m i) s := by
  refine sound_quiet_bind (fun t e => ?_) fun t _ _ e _ _ => ?_
  · cases t.refreshing with
    | none | some => exact ⟨rfl, rfl, rfl⟩
  split
  · refine Prog.safe_act.mpr fun t' _ hI e' => ?_
    split
    · exact ⟨hI, grows_refl _, fun _ _ _ => trivial⟩
    · exact ⟨hI, grows_refl _, fun _ _ _ => trivial⟩
  · refine sound_bind (doRefreshToken_kept i _) fun r t' _ _ => ?_
    exact sound_quiet_bind (fun _ _ => ⟨rfl, rfl, rfl⟩) fun _ _ _ _ _ _ => safe_true

def KnownOutcome (O : String → Prop) (r : Outcome) (s : State) : Prop :=
  ∀ t, r = .token t → Known O s t

theorem useTokens_kept {ts : TokenSet} (hts : Known O s ts.accessToken) :
    Sound U O (KnownOutcome O) (useTokens m i ts) s := by
  have htoken : ∀ {s : State} {ts : TokenSet}, Known O s ts.accessToken →
      Sound U O (KnownOutcome O) (pure (.token ts.accessToken) : Run Outcome) s := by
    intro s ts hts
    refine safe_pure fun t hR x hx => ?_
    cases hx
    exact hts.grows hR
  refine sound_observe_bind fun t hR _ now => ?_
  split
  · refine sound_bind (refreshToken_kept i) fun r t' _ _ => ?_
    cases r with
    | error err => exact safe_pure nofun
    | ok _ => ?_
    refine sound_getTokens_bind fun t'' _ hI => ?_
    cases hmem : t''.tokens with
    | none => exact safe_pure nofun
    | some ts' => exact htoken (hI.memory ts' hmem)
  · exact htoken (hts.grows hR)

/-- **The manager hands out known tokens only.** -/
theorem getAccessToken_kept : Sound U O (KnownOutcome O) (getAccessToken m i) s := by
  refine sound_getTokens_bind fun t _ hI => ?_
  cases hmem : t.tokens with
  | some ts => exact useTokens_kept i (hI.memory ts hmem)
  | none => ?_
  refine sound_getConfig_bind (fun _ _ _ _ => safe_pure nofun) fun t' cfg _ _ hcfg => ?_
  dsimp only
  cases hload : loadTokens m cfg with
  | none => exact safe_pure nofun
  | some ts => ?_
  have hts := hcfg.loadTokens hload
  refine sound_setTokens_bind ?_ fun t'' hR _ => useTokens_kept i (hts.grows hR)
  rintro x ⟨rfl⟩
  exact hts

theorem getTokenInfo_kept : Sound U O Nothing (getTokenInfo m i) s := by
  refine sound_getTokens_bind fun t _ hI => ?_
  cases t.tokens with
  | some ts => exact safe_true
  | none => ?_
  refine sound_getConfig_bind (fun _ _ _ _ => safe_true) fun t' cfg _ _ hcfg => ?_
  dsimp only
  cases hload : loadTokens m cfg with
  | none => exact safe_true
  | some ts => ?_
  refine sound_setTokens_bind ?_ fun _ _ _ => safe_true
  rintro x ⟨rfl⟩
  exact hcfg.loadTokens hload

theorem hasTokens_kept : Sound U O Nothing (hasTokens m) s := by
  refine sound_getTokens_bind fun t _ _ => ?_
  cases t.tokens with
  | some ts => exact safe_true
  | none => exact sound_getConfig_bind (fun _ _ _ _ => safe_true) fun _ _ _ _ _ => safe_true

theorem getConfig_kept : Sound U O Nothing getConfig s := by
  exact sound_getConfig_bind (fun _ _ _ _ => safe_true) fun _ _ _ _ _ => safe_true

theorem startRemote_kept (cfg : RemoteConfig) : Sound U O Nothing (startRemote m cfg) s := by
  unfold startRemote
  split
  · refine sound_bind hasTokens_kept fun found t _ _ => ?_
    split
    · exact safe_true
    · exact safe_true
  · exact safe_true

end

/-! ### The proxy -/

variable {m : Manager} {U : String} {O : String → Prop} {s : State}
  {reinit : RemoteProxy → Request Exchange}

theorem manager_kept {α : Type} {Q : α → State → Prop} {p : Run α} (h : Sound U O Q p s) :
    Sound U O Q (manager p) s :=
  Prog.Safe.focus (fun _ _ => rfl) h

/-- Every request was made to the URL of the configuration, with a known token or none, and
with one only if the configuration asks for it. -/
def KnownSent (O : String → Prop) (cfg : RemoteConfig) (sent : List Sent) (s : State) : Prop :=
  ∀ x ∈ sent, x.url = cfg.url ∧
    ∀ t, x.accessToken = some t → cfg.auth.authType = "oauth" ∧ Known O s t

variable {cfg : RemoteConfig} {sent sent' : List Sent}

theorem KnownSent.grows {s' : State} (h : KnownSent O cfg sent s) (hR : Grows s s') :
    KnownSent O cfg sent s' :=
  fun x hx => ⟨(h x hx).1, fun t ht => ((h x hx).2 t ht).imp id fun hk => hk.grows hR⟩

theorem KnownSent.append (h : KnownSent O cfg sent s) (h' : KnownSent O cfg sent' s) :
    KnownSent O cfg (sent ++ sent') s :=
  fun x hx => (mem_append.mp hx).elim (h x) (h' x)

theorem knownSent_nil (O : String → Prop) (cfg : RemoteConfig) (s : State) :
    KnownSent O cfg [] s := nofun

theorem applyAuth_kept (p : RemoteProxy) :
    Sound U O (fun r t => ∀ a, r = .ok a → a.proxy.config = p.config ∧
      ∀ x, a.accessToken = some x → p.config.auth.authType = "oauth" ∧ Known O t x)
      (applyAuth m p) s := by
  unfold applyAuth
  dsimp only
  split
  · exact safe_pure fun _ _ a ha => by cases ha; exact ⟨rfl, nofun⟩
  split
  · exact safe_pure fun _ _ a ha => by cases ha; exact ⟨rfl, nofun⟩
  split
  · next hoauth =>
    refine sound_bind (manager_kept (getAccessToken_kept 0)) fun r t _ hr => ?_
    cases r with
    | token token =>
      refine safe_pure fun t' hR a ha => ?_
      cases ha
      refine ⟨rfl, fun x hx => ?_⟩
      cases hx
      exact ⟨hoauth, (hr _ rfl).grows hR⟩
    | failed _ | panicked | info | done => exact safe_pure fun _ _ _ ha => absurd ha nofun
  · exact safe_pure fun _ _ a ha => by cases ha; exact ⟨rfl, nofun⟩

def KnownExchange (O : String → Prop) (cfg : RemoteConfig) (x : Exchange) (s : State) : Prop :=
  x.proxy.config = cfg ∧ KnownSent O cfg x.sent s

theorem renewSession_kept (hreinit : ∀ p s, Sound U O (KnownExchange O p.config) (reinit p) s)
    (a : Authorized) : Sound U O (KnownExchange O a.proxy.config) (renewSession reinit a) s := by
  unfold renewSession
  split
  · exact hreinit (a.proxy.withSession "") s
  · exact safe_pure fun _ _ => ⟨rfl, knownSent_nil _ _ _⟩

theorem post_kept {a : Authorized} {before : Exchange} (method : String)
    (ha : ∀ x, a.accessToken = some x → cfg.auth.authType = "oauth" ∧ Known O s x)
    (hbefore : KnownExchange O cfg before s) :
    Sound U O (KnownExchange O cfg) (post a before method) s := by
  obtain ⟨hconfig, hsent⟩ := hbefore
  unfold post
  extract_lets p sent
  have hp : p.config = cfg := by
    dsimp only [p]
    split
    · exact hconfig
    · exact hconfig
  have hall : KnownSent O cfg sent s := by
    intro x hx
    rcases mem_cons.mp hx with rfl | hx
    · exact ⟨congrArg RemoteConfig.url hp, ha⟩
    · exact hsent x hx
  refine sound_observe_bind fun t hR _ answer => ?_
  split
  · exact safe_pure fun t' hR' => ⟨hp, hall.grows (List.Subset.trans hR hR')⟩
  refine safe_pure fun t' hR' => ⟨?_, hall.grows (List.Subset.trans hR hR')⟩
  split
  · exact hp
  · exact hp

theorem doSendWith_kept (hreinit : ∀ p s, Sound U O (KnownExchange O p.config) (reinit p) s)
    (p : RemoteProxy) (method : String) (s : State) :
    Sound U O (KnownExchange O p.config) (doSendWith m reinit p method) s := by
  refine sound_bind (applyAuth_kept p) fun r t _ hr => ?_
  cases r with
  | error err => exact safe_pure fun _ _ => ⟨rfl, knownSent_nil _ _ _⟩
  | ok a => ?_
  obtain ⟨hconfig, htoken⟩ := hr a rfl
  refine sound_bind (renewSession_kept hreinit a).since fun before t' _ ⟨hR, hbefore⟩ => ?_
  rw [hconfig] at hbefore
  exact post_kept method (fun x hx => (htoken x hx).imp id fun hk => hk.grows hR) hbefore

theorem reinitialize_kept (p : RemoteProxy) (s : State) :
    Sound U O (KnownExchange O p.config)
      (doSendWith m (fun p => pure { proxy := p }) p "initialize") s :=
  doSendWith_kept (fun _ _ => safe_pure fun _ _ => ⟨rfl, knownSent_nil _ _ _⟩) p _ s

theorem doSend_kept (p : RemoteProxy) (method : String) (s : State) :
    Sound U O (KnownExchange O p.config) (doSend m p method) s :=
  doSendWith_kept reinitialize_kept p method s

/-- **A request goes to the URL of the proxy with known tokens**, and so do those that are made
on the way. -/
theorem send_kept (p : RemoteProxy) (method : String) (s : State) :
    Sound U O (KnownExchange O p.config) (send m p method) s := by
  refine sound_bind (doSend_kept p method s) fun first t _ hfirst => ?_
  split
  · refine sound_bind (manager_kept (refreshToken_kept 0)).since fun r t' _ ⟨hR, _⟩ => ?_
    cases r with
    | error err =>
      exact safe_pure fun _ hR' => ⟨hfirst.1, hfirst.2.grows (List.Subset.trans hR hR')⟩
    | ok _ => ?_
    refine sound_bind (reinitialize_kept _ t').since fun again t'' _ ⟨hR', hagain⟩ => ?_
    refine sound_bind (doSend_kept _ method t'').since fun second t3 _ ⟨hR'', hsecond⟩ => ?_
    have hconfig : again.proxy.config = p.config := hagain.1.trans hfirst.1
    rw [show first.proxy.afresh.config = p.config from hfirst.1] at hagain
    rw [hconfig] at hsecond
    refine safe_pure fun t4 hR4 => ⟨hsecond.1, KnownSent.append (KnownSent.append ?_ ?_) ?_⟩
    · exact hsecond.2.grows hR4
    · exact hagain.2.grows (List.Subset.trans hR'' hR4)
    · exact ((hfirst.2.grows hR).grows hR').grows (List.Subset.trans hR'' hR4)
  · exact safe_pure fun _ hR => ⟨hfirst.1, hfirst.2.grows hR⟩

theorem sendNotification_kept (p : RemoteProxy) (s : State) :
    Sound U O (KnownExchange O p.config) (sendNotification m p) s := by
  refine sound_bind (applyAuth_kept p) fun r t _ hr => ?_
  cases r with
  | error err => exact safe_pure fun _ _ => ⟨rfl, knownSent_nil _ _ _⟩
  | ok a => ?_
  obtain ⟨hconfig, htoken⟩ := hr a rfl
  refine safe_pure fun t' hR => ⟨hconfig, fun x hx => ?_⟩
  obtain rfl := mem_singleton.mp hx
  exact ⟨rfl, fun y hy => (htoken y hy).imp id fun hk => hk.grows hR⟩

theorem startServer_kept (serverType : Lifecycle.ServerType) :
    Sound U O Nothing (startServer m serverType) s := by
  refine sound_bind (manager_kept getConfig_kept) fun r t _ _ => ?_
  cases r with
  | error err => exact safe_true
  | ok cfg => ?_
  cases serverType with
  | remote => exact manager_kept (startRemote_kept cfg)
  | stdio | http =>
    refine sound_observe_bind fun t' _ _ answer => ?_
    cases answer with
    | error _ | ok _ => exact safe_true

/-! ### Histories -/

/-- The row and the memory have tokens for the URL of the row only, and what was sent was sent
where it belongs. -/
structure Inv (w : World) : Prop where
  row : w.oauth.config.auth.accessToken = "" ∨
    (w.oauth.config.url, w.oauth.config.auth.accessToken) ∈ w.obtained
  memory : ∀ ts, w.oauth.tokens = some ts → (w.oauth.config.url, ts.accessToken) ∈ w.obtained
  sent : ∀ x ∈ w.sent, ∀ t, x.accessToken = some t → (x.url, t) ∈ w.obtained

variable {w : World} {α : Type}

def World.has (w : World) (t : String) : Prop := (w.oauth.config.url, t) ∈ w.obtained

theorem Inv.perform (h : Inv w) {Q : α → State → Prop} {p : Request α}
    (hp : ∀ s, Sound w.oauth.config.url (World.has w) Q p s) (env : ℕ → RequestEnv) :
    Inv (w.perform p env).1 ∧ Q (w.perform p env).2 (w.perform p env).1.oauth ∧
      ∀ t, Known (World.has w) (w.perform p env).1.oauth t →
        (w.oauth.config.url, t) ∈ (w.perform p env).1.obtained := by
  have hkept : Kept w.oauth.config.url (World.has w) { w.oauth with log := [] } :=
    ⟨⟨rfl, h.row.imp id .inl⟩, fun ts hts => .inl (h.memory ts hts)⟩
  obtain ⟨⟨hrow, hmemory⟩, hQ⟩ := (hp _).alone grows_refl hkept env
  have hknown : ∀ t, Known (World.has w) (w.perform p env).1.oauth t →
      (w.oauth.config.url, t) ∈ (w.perform p env).1.obtained := by
    rintro t (ht | ht)
    · exact mem_append_right _ ht
    · exact mem_append_left _ (mem_map_of_mem ht)
  have hurl : (w.perform p env).1.oauth.config.url = w.oauth.config.url := hrow.url
  refine ⟨⟨?_, fun ts hts => ?_, fun x hx t ht => ?_⟩, hQ, hknown⟩
  · rw [hurl]
    exact hrow.token.imp id fun ht => hknown _ ht
  · rw [hurl]
    exact hknown _ (hmemory ts hts)
  · exact mem_append_right _ (h.sent x hx t ht)

theorem alone_manager (p : Run α) (env : ℕ → RequestEnv) (s : State) :
    (manager p).alone env s = p.alone (fun n => (env n).toEnv) s := by
  induction p generalizing env s with
  | ret a => rfl
  | step upd next ih => exact ih s (env 0).toEnv (fun n => env (n + 1)) (upd s (env 0).toEnv)

/-- An edit has written the URL of the form, and no token but the one that was there, or it has
written nothing. -/
structure Edited (form : Form) (s s' : State) : Prop where
  tokens : s'.tokens = s.tokens
  log : replies s'.log = replies s.log
  config : s'.config = s.config ∨ s'.config.url = form.config.url ∧
    (s'.config.auth.accessToken = "" ∨ s'.config.auth.accessToken = s.config.auth.accessToken)

theorem preserve_accessToken (old : RemoteConfig) (form : Form) :
    (old.preserve form.config).auth.accessToken = "" ∨
      (old.preserve form.config).auth.accessToken = old.auth.accessToken := by
  rw [RemoteConfig.preserve]
  split
  · exact .inr rfl
  · exact .inl form.noTokens.1

theorem edited_serverEdit (form : Form) (env : ℕ → Env) (s : State) :
    Edited form s ((serverEdit 0 form.config).alone env s).1 := by
  rw [serverEdit, getConfig, Prog.attempt, Prog.alone_act_bind]
  cases (env 0).storeErr with
  | some err => exact ⟨rfl, rfl, .inl rfl⟩
  | none => ?_
  dsimp only
  rw [Prog.attempt, Prog.alone_act_bind]
  cases (env 1).storeErr with
  | some err => exact ⟨rfl, rfl, .inl rfl⟩
  | none => exact ⟨rfl, rfl, .inr ⟨rfl, preserve_accessToken s.config form⟩⟩

theorem edited_replaceConfig (form : Form) (env : ℕ → Env) (s : State) :
    Edited form s ((replaceConfig form.config).alone env s).1 := by
  rw [replaceConfig, getConfig, Prog.attempt, Prog.alone_act_bind]
  cases (env 0).storeErr with
  | some err => exact ⟨rfl, rfl, .inl rfl⟩
  | none => ?_
  rw [updateConfig, Prog.alone_act_bind]
  cases (env 1).storeErr with
  | some err => exact ⟨rfl, rfl, .inl rfl⟩
  | none => exact ⟨rfl, rfl, .inr ⟨rfl, .inl form.noTokens.1⟩⟩

theorem edited_handleServerEdit (form : Form) (env : ℕ → RequestEnv) (s : State) :
    Edited form s ((manager (handleServerEdit form)).alone env s).1 := by
  rw [alone_manager, handleServerEdit]
  cases form.serverType with
  | remote => exact edited_serverEdit form _ s
  | stdio | http => exact edited_replaceConfig form _ s

/-- What a step has to respect: an edit that changes the URL finds no token, and a request is
made through a proxy that has the URL of the row. -/
def Step.careful (w : World) : Step → Bool
  | .edit form => form.config.url = w.oauth.config.url ∨
      (w.oauth.config.auth.accessToken = "" ∧ w.oauth.tokens = none)
  | .request _ | .notify =>
    match w.backend with
    | some (.remote p) => p.config.auth.authType ≠ "oauth" ∨ p.config.url = w.oauth.config.url
    | some .plain | none => true
  | _ => true

theorem Inv.config (h : Inv w) {w' : World} (hobtained : w'.obtained = w.obtained)
    (hsent : w'.sent = w.sent) (htokens : w'.oauth.tokens = w.oauth.tokens)
    (htoken : w'.oauth.config.auth.accessToken = "" ∨
      w'.oauth.config.auth.accessToken = w.oauth.config.auth.accessToken)
    (hcareful : w'.oauth.config.url = w.oauth.config.url ∨
      w.oauth.config.auth.accessToken = "" ∧ w.oauth.tokens = none) : Inv w' := by
  refine ⟨?_, fun ts hts => ?_, ?_⟩
  · rw [hobtained]
    rcases htoken with htoken | htoken
    · exact .inl htoken
    rw [htoken]
    rcases hcareful with hurl | ⟨hnone, -⟩
    · rw [hurl]
      exact h.row
    · exact .inl hnone
  · rw [htokens] at hts
    rw [hobtained]
    rcases hcareful with hurl | ⟨-, hnone⟩
    · rw [hurl]
      exact h.memory ts hts
    · exact absurd (hnone.symm.trans hts) nofun
  · rw [hobtained, hsent]
    exact h.sent

theorem Inv.edit (h : Inv w) (form : Form) (hcareful : Step.careful w (.edit form) = true)
    (env : ℕ → RequestEnv) : Inv (w.perform (manager (handleServerEdit form)) env).1 := by
  have hedit := edited_handleServerEdit form env { w.oauth with log := [] }
  have hobtained : (w.perform (manager (handleServerEdit form)) env).1.obtained = w.obtained := by
    rw [World.perform, hedit.log]
    rfl
  rcases hedit.config with hsame | ⟨hurl, htoken⟩
  · exact h.config hobtained rfl hedit.tokens (.inr (congrArg (·.auth.accessToken) hsame))
      (.inl (congrArg (·.url) hsame))
  · refine h.config hobtained rfl hedit.tokens htoken ?_
    exact (of_decide_eq_true hcareful).imp (fun h => hurl.trans h) id

theorem Inv.exchange (h : Inv w) {p : RemoteProxy → Request Exchange}
    (hp : ∀ q s, Sound w.oauth.config.url (World.has w) (KnownExchange (World.has w) q.config)
      (p q) s) (hcareful : Step.careful w .notify = true) (env : ℕ → RequestEnv) :
    Inv (w.exchange p env) := by
  unfold World.exchange
  cases hbackend : w.backend with
  | none => exact h
  | some b => ?_
  cases b with
  | plain => exact h
  | remote q => ?_
  obtain ⟨hinv, ⟨-, hsent⟩, hknown⟩ := h.perform (hp q) env
  refine ⟨hinv.row, hinv.memory, fun x hx t ht => ?_⟩
  rcases mem_append.mp hx with hx | hx
  · obtain ⟨hurl, htoken⟩ := hsent x hx
    obtain ⟨hoauth, ht'⟩ := htoken t ht
    rw [Step.careful, hbackend] at hcareful
    rw [hurl, (of_decide_eq_true hcareful).resolve_left fun h => h hoauth]
    exact hknown t ht'
  · exact hinv.sent x hx t ht

/-- **A careful step keeps the invariant.** -/
theorem Inv.apply (h : Inv w) {step : Step} (hcareful : Step.careful w step = true)
    (env : ℕ → RequestEnv) : Inv (w.apply m env step) := by
  cases step with
  | world ev =>
    cases ev with
    | flowStarted pa | cleanup now => exact ⟨h.row, h.memory, h.sent⟩
  | handleCallback state code =>
    exact (h.perform (fun s => manager_kept (handleCallback_kept 0 state code)) env).1
  | reRegister force => exact (h.perform (fun s => manager_kept (reRegister_kept 0 force)) env).1
  | refresh => exact (h.perform (fun s => manager_kept (refreshToken_kept 0)) env).1
  | getTokenInfo => exact (h.perform (fun s => manager_kept (getTokenInfo_kept 0)) env).1
  | edit form =>
    have hinv := h.edit form hcareful env
    rw [World.apply]
    split
    · exact ⟨hinv.row, hinv.memory, hinv.sent⟩
    · exact hinv
  | start =>
    rw [World.apply]
    cases w.backend with
    | some b => exact h
    | none =>
      have hinv := (h.perform (fun s => startServer_kept (m := m) w.serverType) env).1
      exact ⟨hinv.row, hinv.memory, hinv.sent⟩
  | stop => exact ⟨h.row, h.memory, h.sent⟩
  | reboot => exact ⟨h.row, nofun, h.sent⟩
  | request method => exact h.exchange (fun q s => send_kept q method s) hcareful env
  | notify => exact h.exchange sendNotification_kept hcareful env

def Careful (m : Manager) : World → List (Step × (ℕ → RequestEnv)) → Bool
  | _, [] => true
  | w, (step, env) :: history => Step.careful w step && Careful m (w.apply m env step) history

theorem Inv.run {history : List (Step × (ℕ → RequestEnv))} (h : Inv w)
    (hcareful : Careful m w history = true) : Inv (w.run m history) := by
  induction history generalizing w with
  | nil => exact h
  | cons x history ih =>
    obtain ⟨hstep, hrest⟩ := Bool.and_eq_true_iff.mp hcareful
    exact ih (h.apply hstep x.2) hrest

theorem inv_init (config : RemoteConfig) : Inv (World.init config) := by
  refine ⟨?_, nofun, nofun⟩
  by_cases hnone : config.auth.accessToken = ""
  · exact .inl hnone
  refine .inr ?_
  rw [World.init, if_neg hnone]
  exact mem_singleton.mpr rfl

/-- **Tokens stay with their URL.**  A server has any configuration and any history of
authorizations, refreshes, edits, starts, stops, restarts of the process and requests.  If
every edit that changes the URL finds no token and every request is made through a proxy with
the URL of the row, then every access token in a header was obtained while the row had the URL
the request goes to. -/
theorem tokens_stay (m : Manager) (config : RemoteConfig) (history : List (Step × (ℕ → RequestEnv)))
    (hcareful : Careful m (World.init config) history = true) :
    ∀ x ∈ ((World.init config).run m history).sent, ∀ t, x.accessToken = some t →
      (x.url, t) ∈ ((World.init config).run m history).obtained :=
  ((inv_init config).run hcareful).sent

def unauthorized (url : String) : RemoteConfig where
  url := url
  auth :=
    { authType := "oauth", clientID := "relay", authURL := "https://auth.example/authorize"
      tokenURL := "https://auth.example/token"
      registrationEndpoint := "https://auth.example/register" }

def relay : Manager := ⟨"https://relay.example", "srv", toString, fun _ => none⟩

def answering (token : String) : ℕ → RequestEnv := fun _ =>
  { token := .ok token "" "" 0, registration := .ok ⟨"relay", ""⟩, answer := .ok (200, "") }

def authorize (token : String) : List (Step × (ℕ → RequestEnv)) :=
  [(.world (.flowStarted ⟨"state", "verifier", 0⟩), answering token),
    (.handleCallback "state" "code", answering token)]

def authorizedOnce : List (Step × (ℕ → RequestEnv)) :=
  authorize "token-of-a" ++
    [(.start, answering "token-of-a"), (.request "tools/list", answering "token-of-a")]

def moved : Form := ⟨.remote, unauthorized "https://b.example", by decide⟩

/-- The server is registered anew, moved, authorized and started again. -/
def authorizedAgain : List (Step × (ℕ → RequestEnv)) :=
  authorizedOnce ++ [(.reRegister true, answering ""), (.edit moved, answering "")] ++
    authorize "token-of-b" ++ [(.stop, answering ""), (.start, answering ""),
      (.request "tools/list", answering "")]

theorem tokens_stay_moved :
    let w := (World.init (unauthorized "https://a.example")).run relay authorizedAgain
    (∃ x ∈ w.sent, x.url = "https://a.example" ∧ x.accessToken = some "token-of-a") ∧
      (∃ x ∈ w.sent, x.url = "https://b.example" ∧ x.accessToken = some "token-of-b") ∧
      ∀ x ∈ w.sent, ∀ t, x.accessToken = some t → (x.url, t) ∈ w.obtained :=
  ⟨by decide +kernel, by decide +kernel,
    tokens_stay relay (unauthorized "https://a.example") authorizedAgain (by decide +kernel)⟩

def movedAndRestarted : World :=
  (World.init (unauthorized "https://a.example")).run relay
    (authorizedOnce ++ [(.edit moved, answering ""), (.stop, answering ""),
      (.start, answering ""), (.request "tools/list", answering "")])

def movedAndReauthorized : World :=
  (World.init (unauthorized "https://a.example")).run relay
    (authorizedOnce ++ [(.reRegister true, answering ""), (.edit moved, answering "")] ++
      authorize "token-of-b" ++ [(.request "tools/list", answering "")])

/-- **Tokens stray.**  The URL is edited, the server is stopped and started, and the next
request to the new URL has the token that was obtained for the old one.  Or the tokens are
cleared by a registration, the URL is edited, the server is authorized anew, and the next
request, which goes to the old URL since the proxy still has it, has the new token. -/
theorem token_strays :
    (movedAndRestarted.obtained = [("https://a.example", "token-of-a")] ∧
      ⟨"https://b.example", some ("Authorization", "Bearer token-of-a"), some "token-of-a"⟩ ∈
        movedAndRestarted.sent) ∧
    movedAndReauthorized.obtained =
      [("https://b.example", "token-of-b"), ("https://a.example", "token-of-a")] ∧
      ⟨"https://a.example", some ("Authorization", "Bearer token-of-b"), some "token-of-b"⟩ ∈
        movedAndReauthorized.sent := by
  decide +kernel

end ArcRelay.OAuth.Audience
