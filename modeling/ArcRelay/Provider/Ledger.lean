import ArcRelay.Provider.Handlers

/-!
# What the history of the authorization server says

Every code and every token has a number, and the history tells what was done with it.  This
file proves once, for every interleaving of requests, what can be read off it: a code was
made by an approval and is taken at most once; a token is minted by a request that has
taken a code, or has found a refresh token, and meets the checks; a refresh token that was
deleted is not found again; and a request mints at most one token of each kind.

What the history says of a refresh token is less than of a code, since finding it and
deleting it are two steps.
-/

namespace ArcRelay.Provider

open Interleave Prog List Option Nat Table

def Entry.owner : Entry → ℕ
  | .approved i _ | .consumed i _ _ | .read i _ | .removed i _ _ _ | .minted i _ _ _ => i

/-! ### What entries say -/

section

variable (tools : Tools) (reqs : List Request)

def State.client (s : State) (clientID : String) : Option Client :=
  find Client.clientID clientID s.clients

/-- The request is an approval of what the code stands for, and the redirect URI is
registered for the client. -/
def Approves (s : State) (i : ℕ) (ac : AuthCode) : Prop :=
  ∃ f, reqs[i]? = some (.authorize f) ∧ f.action ≠ "deny" ∧ ac.clientID = f.clientID ∧
    ac.userID = f.userID ∧ ac.redirectURI = f.redirectURI ∧ ac.codeChallenge = f.codeChallenge ∧
    ac.scope = (if f.scope = "" then "mcp" else f.scope) ∧ ac.resource = f.resource ∧
    ∃ c, s.client f.clientID = some c ∧ c.hasRedirectURI f.redirectURI = true

def Authenticated (c : Client) (f : TokenForm) : Prop :=
  c.tokenEndpointAuthMethod = "client_secret_post" → c.accepts tools f.clientSecret = true

def TokenRow.For (row : TokenRow) (userID clientID scope resource : String) : Prop :=
  row.userID = userID ∧ row.clientID = clientID ∧ row.scope = scope ∧ row.resource = resource

def Redeems (s : State) (i : ℕ) (ac : AuthCode) : Prop :=
  ∃ f, reqs[i]? = some (.token f) ∧ f.grantType = "authorization_code" ∧ f.code = ac.code ∧
    f.clientID = ac.clientID ∧ f.redirectURI = ac.redirectURI ∧
    tools.computeCodeChallenge f.codeVerifier = ac.codeChallenge ∧
    (∃ now, .consumed i ac now ∈ s.log) ∧
    ∃ c, s.client ac.clientID = some c ∧ Authenticated tools c f

def Renews (s : State) (i : ℕ) (rt : TokenRow) : Prop :=
  ∃ f, reqs[i]? = some (.token f) ∧ f.grantType = "refresh_token" ∧
    tools.sha256 f.refreshToken = rt.tokenHash ∧ (f.clientID = "" ∨ f.clientID = rt.clientID) ∧
    .read i rt ∈ s.log ∧ ∃ now executed, .removed i rt now executed ∈ s.log ∧ now ≤ rt.expiresAt

def Justifies (s : State) (i : ℕ) (row : TokenRow) : Source → Prop
  | .code ac => Redeems tools reqs s i ac ∧ row.For ac.userID ac.clientID ac.scope ac.resource
  | .refresh rt => Renews tools reqs s i rt ∧ row.For rt.userID rt.clientID rt.scope rt.resource

/-- A refresh token that was deleted is not found again. -/
def ReadLive : List Entry → Prop
  | [] => True
  | .read _ rt :: log =>
    (∀ j rt' now, .removed j rt' now true ∈ log → rt'.serial ≠ rt.serial) ∧ ReadLive log
  | _ :: log => ReadLive log

def SameMint : Entry → Entry → Prop
  | .minted i k _ _, .minted j k' _ _ => i = j ∧ k = k'
  | _, _ => False

structure Inv (s : State) : Prop where
  codes : ∀ ac ∈ s.codes, ac.serial < s.next ∧ ∃ i, .approved i ac ∈ s.log
  codeSerials : ∀ ac ∈ s.codes, ∀ ac' ∈ s.codes, ac.serial = ac'.serial → ac = ac'
  approved : ∀ i ac, .approved i ac ∈ s.log → Approves reqs s i ac
  taken : ∀ i ac now, .consumed i ac now ∈ s.log → ac.serial < s.next ∧
    (∀ ac' ∈ s.codes, ac'.serial ≠ ac.serial) ∧ (∃ j, .approved j ac ∈ s.log) ∧ now ≤ ac.expiresAt
  takenOnce : ∀ i j ac ac' now now', .consumed i ac now ∈ s.log → .consumed j ac' now' ∈ s.log →
    ac.serial = ac'.serial → i = j
  rows : ∀ rt ∈ s.refreshTokens, rt.serial < s.next
  rowSerials : ∀ rt ∈ s.refreshTokens, ∀ rt' ∈ s.refreshTokens, rt.serial = rt'.serial → rt = rt'
  read : ∀ i rt, .read i rt ∈ s.log → rt.serial < s.next ∧
    ∀ rt' ∈ s.refreshTokens, rt'.serial = rt.serial → rt' = rt
  removed : ∀ i rt now, .removed i rt now true ∈ s.log → .read i rt ∈ s.log ∧
    rt.serial < s.next ∧ ∀ rt' ∈ s.refreshTokens, rt'.serial ≠ rt.serial
  live : ReadLive s.log
  minted : ∀ i k src row, .minted i k src row ∈ s.log → Justifies tools reqs s i row src
  once : s.log.Pairwise fun e e' => ¬ SameMint e e'

end

/-- What the others do: they add to the history, and clients stay as they are. -/
structure Rely (i : ℕ) (s s' : State) : Prop where
  log : ∃ front, s'.log = front ++ s.log ∧ ∀ e ∈ front, e.owner ≠ i
  clients : ∀ id c, s.client id = some c → s'.client id = some c

structure Guar (i : ℕ) (s s' : State) : Prop where
  log : ∃ front, s'.log = front ++ s.log ∧ ∀ e ∈ front, e.owner = i
  clients : ∀ id c, s.client id = some c → s'.client id = some c

section

variable {tools : Tools} {reqs : List Request} {i j : ℕ} {s s' s'' : State} {e : Entry} {k : Kind}
  {ac : AuthCode} {row : TokenRow}

theorem Rely.mem (h : Rely i s s') (he : e ∈ s.log) : e ∈ s'.log := by
  obtain ⟨front, hlog, -⟩ := h.log
  rw [hlog]
  exact mem_append_right front he

theorem Rely.of_log (hlog : s'.log = s.log)
    (hclients : ∀ id c, s.client id = some c → s'.client id = some c) : Rely i s s' :=
  ⟨⟨[], hlog, fun _ he => absurd he not_mem_nil⟩, hclients⟩

theorem Rely.refl (i : ℕ) (s : State) : Rely i s s := .of_log rfl fun _ _ h => h

instance : Std.Refl (Rely i) := ⟨Rely.refl i⟩

theorem Rely.trans (h : Rely i s s') (h' : Rely i s' s'') : Rely i s s'' := by
  obtain ⟨front, hlog, howner⟩ := h.log
  obtain ⟨front', hlog', howner'⟩ := h'.log
  refine ⟨⟨front' ++ front, by rw [hlog', hlog, append_assoc], fun e he => ?_⟩,
    fun id c hc => h'.clients id c (h.clients id c hc)⟩
  rcases mem_append.mp he with h | h
  · exact howner' e h
  · exact howner e h

theorem Guar.rely (h : Guar i s s') (hij : i ≠ j) : Rely j s s' := by
  obtain ⟨front, hlog, howner⟩ := h.log
  exact ⟨⟨front, hlog, fun e he heq => hij ((howner e he).symm.trans heq)⟩, h.clients⟩

theorem Guar.of_log (hlog : s'.log = s.log)
    (hclients : ∀ id c, s.client id = some c → s'.client id = some c) : Guar i s s' :=
  ⟨⟨[], hlog, fun _ he => absurd he not_mem_nil⟩, hclients⟩

theorem Guar.of_log_eq (hlog : s'.log = s.log) (hclients : s'.clients = s.clients) :
    Guar i s s' := by
  refine .of_log hlog fun id c hc => ?_
  rw [State.client, hclients]
  exact hc

theorem Guar.refl (i : ℕ) (s : State) : Guar i s s := .of_log_eq rfl rfl

theorem Guar.of_cons (hlog : s'.log = e :: s.log) (he : e.owner = i)
    (hclients : s'.clients = s.clients) : Guar i s s' := by
  refine ⟨⟨[e], hlog, fun e' he' => ?_⟩, fun id c hc => ?_⟩
  · rw [mem_singleton.mp he']
    exact he
  · rw [State.client, hclients]
    exact hc

def Unminted (i : ℕ) (k : Kind) (s : State) : Prop := ∀ src row, .minted i k src row ∉ s.log

theorem Unminted.rely (h : Unminted i k s) (hR : Rely i s s') : Unminted i k s' := by
  intro src row hmem
  obtain ⟨front, hlog, howner⟩ := hR.log
  rw [hlog] at hmem
  rcases mem_append.mp hmem with hnew | hold
  · exact howner _ hnew rfl
  · exact h src row hold

theorem Unminted.cons (h : Unminted i k s) (he : ∀ src row, Entry.minted i k src row ≠ e)
    (hlog : s'.log = e :: s.log) : Unminted i k s' := by
  intro src row hmem
  rw [hlog] at hmem
  exact h src row (mem_of_ne_of_mem (he src row) hmem)

/-! ### What is kept when the history grows -/

structure Grows (s s' : State) : Prop where
  log : ∀ e ∈ s.log, e ∈ s'.log
  clients : ∀ id c, s.client id = some c → s'.client id = some c

theorem Approves.mono (h : Approves reqs s i ac) (hg : Grows s s') : Approves reqs s' i ac := by
  obtain ⟨f, hf, hdeny, hclient, huser, huri, hch, hscope, hres, c, hc, hhas⟩ := h
  exact ⟨f, hf, hdeny, hclient, huser, huri, hch, hscope, hres, c, hg.clients _ c hc, hhas⟩

theorem Justifies.mono {src : Source} (h : Justifies tools reqs s i row src) (hg : Grows s s') :
    Justifies tools reqs s' i row src := by
  cases src with
  | code ac =>
    obtain ⟨⟨f, hf, hgrant, hcode, hid, huri, hch, ⟨now, hnow⟩, c, hc, hauth⟩, hrow⟩ := h
    exact ⟨⟨f, hf, hgrant, hcode, hid, huri, hch, ⟨now, hg.log _ hnow⟩, c, hg.clients _ c hc,
      hauth⟩, hrow⟩
  | refresh rt =>
    obtain ⟨⟨f, hf, hgrant, hhash, hid, hread, now, ex, hrem, hle⟩, hrow⟩ := h
    exact ⟨⟨f, hf, hgrant, hhash, hid, hg.log _ hread, now, ex, hg.log _ hrem, hle⟩, hrow⟩

theorem Inv.shrink (h : Inv tools reqs s) (hcodes : ∀ ac ∈ s'.codes, ac ∈ s.codes)
    (hrows : ∀ rt ∈ s'.refreshTokens, rt ∈ s.refreshTokens) (hnext : s'.next = s.next)
    (hlog : s'.log = s.log) (hclients : ∀ id c, s.client id = some c → s'.client id = some c) :
    Inv tools reqs s' := by
  have hg : Grows s s' := ⟨fun e he => hlog ▸ he, hclients⟩
  refine ⟨fun ac hac => ?_, fun ac hac ac' hac' => ?_, fun i ac hmem => ?_, fun i ac now hmem => ?_,
    ?_, fun rt hrt => ?_, fun rt hrt rt' hrt' => ?_, fun i rt hmem => ?_, fun i rt now hmem => ?_,
    ?_, fun i k src row hmem => ?_, ?_⟩
  · rw [hnext, hlog]
    exact h.codes ac (hcodes ac hac)
  · exact h.codeSerials ac (hcodes ac hac) ac' (hcodes ac' hac')
  · exact (h.approved i ac (hlog ▸ hmem)).mono hg
  · obtain ⟨hlt, hgone, happ, hle⟩ := h.taken i ac now (hlog ▸ hmem)
    rw [hnext, hlog]
    exact ⟨hlt, fun ac' hac' => hgone ac' (hcodes ac' hac'), happ, hle⟩
  · rw [hlog]
    exact h.takenOnce
  · rw [hnext]
    exact h.rows rt (hrows rt hrt)
  · exact h.rowSerials rt (hrows rt hrt) rt' (hrows rt' hrt')
  · obtain ⟨hlt, hsame⟩ := h.read i rt (hlog ▸ hmem)
    rw [hnext]
    exact ⟨hlt, fun rt' hrt' => hsame rt' (hrows rt' hrt')⟩
  · obtain ⟨hread, hlt, hgone⟩ := h.removed i rt now (hlog ▸ hmem)
    rw [hnext]
    exact ⟨hg.log _ hread, hlt, fun rt' hrt' => hgone rt' (hrows rt' hrt')⟩
  · rw [hlog]
    exact h.live
  · exact (h.minted i k src row (hlog ▸ hmem)).mono hg
  · rw [hlog]
    exact h.once

def Admissible (tools : Tools) (reqs : List Request) (s : State) : Entry → Prop
  | .approved i ac => Approves reqs s i ac
  | .consumed _ ac now => ac.serial < s.next ∧ (∀ ac' ∈ s.codes, ac'.serial ≠ ac.serial) ∧
    (∃ j, .approved j ac ∈ s.log) ∧ now ≤ ac.expiresAt ∧
    ∀ j ac' now', .consumed j ac' now' ∈ s.log → ac'.serial ≠ ac.serial
  | .read _ rt => rt.serial < s.next ∧
    (∀ rt' ∈ s.refreshTokens, rt'.serial = rt.serial → rt' = rt) ∧
    ∀ j rt' now, .removed j rt' now true ∈ s.log → rt'.serial ≠ rt.serial
  | .removed i rt _ executed => executed = true → .read i rt ∈ s.log ∧
    rt.serial < s.next ∧ ∀ rt' ∈ s.refreshTokens, rt'.serial ≠ rt.serial
  | .minted i k src row => Justifies tools reqs s i row src ∧ Unminted i k s

theorem Inv.cons (h : Inv tools reqs s) (he : Admissible tools reqs s e) :
    Inv tools reqs { s with log := e :: s.log } := by
  have hg : Grows s { s with log := e :: s.log } :=
    ⟨fun e' he' => mem_cons_of_mem e he', fun _ _ hc => hc⟩
  refine ⟨fun ac hac => ?_, h.codeSerials, fun i ac hmem => ?_, fun i ac now hmem => ?_,
    fun i j ac ac' now now' hmem hmem' heq => ?_, h.rows, h.rowSerials, fun i rt hmem => ?_,
    fun i rt now hmem => ?_, ?_, fun i k src row hmem => ?_, ?_⟩
  · obtain ⟨hlt, i, happ⟩ := h.codes ac hac
    exact ⟨hlt, i, mem_cons_of_mem e happ⟩
  · rcases mem_cons.mp hmem with rfl | hold
    · exact Approves.mono he hg
    · exact (h.approved i ac hold).mono hg
  · rcases mem_cons.mp hmem with rfl | hold
    · obtain ⟨hlt, hgone, ⟨j, happ⟩, hle, -⟩ := he
      exact ⟨hlt, hgone, ⟨j, mem_cons_of_mem _ happ⟩, hle⟩
    · obtain ⟨hlt, hgone, ⟨j, happ⟩, hle⟩ := h.taken i ac now hold
      exact ⟨hlt, hgone, ⟨j, mem_cons_of_mem _ happ⟩, hle⟩
  · rcases mem_cons.mp hmem with rfl | hold
    · rcases mem_cons.mp hmem' with hnew | hold'
      · exact ((Entry.consumed.inj hnew).1).symm
      · exact absurd heq.symm (he.2.2.2.2 j ac' now' hold')
    rcases mem_cons.mp hmem' with rfl | hold'
    · exact absurd heq (he.2.2.2.2 i ac now hold)
    · exact h.takenOnce i j ac ac' now now' hold hold' heq
  · rcases mem_cons.mp hmem with rfl | hold
    · exact ⟨he.1, he.2.1⟩
    · exact h.read i rt hold
  · rcases mem_cons.mp hmem with rfl | hold
    · exact ⟨mem_cons_of_mem _ (he rfl).1, (he rfl).2⟩
    · obtain ⟨hread, hgone⟩ := h.removed i rt now hold
      exact ⟨mem_cons_of_mem e hread, hgone⟩
  · cases e with
    | read i rt => exact ⟨he.2.2, h.live⟩
    | _ => exact h.live
  · rcases mem_cons.mp hmem with rfl | hold
    · exact he.1.mono hg
    · exact (h.minted i k src row hold).mono hg
  · refine pairwise_cons.mpr ⟨fun e' he' hsame => ?_, h.once⟩
    cases e with
    | minted i k src row =>
      cases e' with
      | minted j k' src' row' =>
        obtain ⟨rfl, rfl⟩ := hsame
        exact he.2 src' row' he'
      | _ => exact hsame
    | _ => exact hsame

theorem Inv.addCode (h : Inv tools reqs s) (hserial : ac.serial = s.next)
    (happ : ∃ i, .approved i ac ∈ s.log) :
    Inv tools reqs { s with codes := ac :: s.codes, next := s.next + 1 } := by
  refine ⟨fun ac' hac' => ?_, fun a ha b hb heq => ?_, h.approved, fun i ac' now hmem => ?_,
    h.takenOnce, fun rt hrt => lt_succ_of_lt (h.rows rt hrt), h.rowSerials, fun i rt hmem => ?_,
    fun i rt now hmem => ?_, h.live, h.minted, h.once⟩
  · rcases mem_cons.mp hac' with rfl | hold
    · exact ⟨hserial ▸ lt_succ_self _, happ⟩
    · exact ⟨lt_succ_of_lt (h.codes ac' hold).1, (h.codes ac' hold).2⟩
  · rcases mem_cons.mp ha with rfl | ha' <;> rcases mem_cons.mp hb with rfl | hb'
    · rfl
    · have := (h.codes b hb').1
      omega
    · have := (h.codes a ha').1
      omega
    · exact h.codeSerials a ha' b hb' heq
  · obtain ⟨hlt, hgone, happ', hle⟩ := h.taken i ac' now hmem
    refine ⟨lt_succ_of_lt hlt, fun b hb => ?_, happ', hle⟩
    rcases mem_cons.mp hb with rfl | hb'
    · omega
    · exact hgone b hb'
  · exact ⟨lt_succ_of_lt (h.read i rt hmem).1, (h.read i rt hmem).2⟩
  · obtain ⟨hread, hlt, hgone⟩ := h.removed i rt now hmem
    exact ⟨hread, lt_succ_of_lt hlt, hgone⟩

theorem Inv.addRow (h : Inv tools reqs s) (hserial : row.serial = s.next) :
    Inv tools reqs { s.insert row k with next := s.next + 1 } := by
  have hrows : ∀ rt ∈ (s.insert row k).refreshTokens, rt ∈ s.refreshTokens ∨ rt = row := by
    cases k with
    | access => exact fun rt hrt => Or.inl hrt
    | refresh => exact fun rt hrt => by simpa [State.insert] using hrt
  have hlog : (s.insert row k).log = s.log := by cases k <;> rfl
  have hcodes : (s.insert row k).codes = s.codes := by cases k <;> rfl
  have hclients : (s.insert row k).clients = s.clients := by cases k <;> rfl
  have hg : Grows s { s.insert row k with next := s.next + 1 } := by
    refine ⟨fun e he => hlog ▸ he, fun id c hc => ?_⟩
    show find _ _ (s.insert row k).clients = some c
    rw [hclients]
    exact hc
  refine ⟨fun ac hac => ?_, fun a ha b hb => ?_, fun i ac hmem => ?_, fun i ac now hmem => ?_, ?_,
    fun rt hrt => ?_, fun a ha b hb heq => ?_, fun i rt hmem => ?_, fun i rt now hmem => ?_, ?_,
    fun i k' src row' hmem => ?_, ?_⟩
  · obtain ⟨hlt, i, happ⟩ := h.codes ac (hcodes ▸ hac)
    exact ⟨lt_succ_of_lt hlt, i, hg.log _ happ⟩
  · exact h.codeSerials a (hcodes ▸ ha) b (hcodes ▸ hb)
  · exact (h.approved i ac (hlog ▸ hmem)).mono hg
  · obtain ⟨hlt, hgone, ⟨j, happ⟩, hle⟩ := h.taken i ac now (hlog ▸ hmem)
    exact ⟨lt_succ_of_lt hlt, fun b hb => hgone b (hcodes ▸ hb), ⟨j, hg.log _ happ⟩, hle⟩
  · rw [hlog]
    exact h.takenOnce
  · rcases hrows rt hrt with hold | rfl
    · exact lt_succ_of_lt (h.rows rt hold)
    · exact hserial ▸ lt_succ_self _
  · rcases hrows a ha with ha' | rfl <;> rcases hrows b hb with hb' | rfl
    · exact h.rowSerials a ha' b hb' heq
    · have := h.rows a ha'
      omega
    · have := h.rows b hb'
      omega
    · rfl
  · obtain ⟨hlt, hsame⟩ := h.read i rt (hlog ▸ hmem)
    refine ⟨lt_succ_of_lt hlt, fun b hb heq => ?_⟩
    rcases hrows b hb with hb' | rfl
    · exact hsame b hb' heq
    · omega
  · obtain ⟨hread, hlt, hgone⟩ := h.removed i rt now (hlog ▸ hmem)
    refine ⟨hg.log _ hread, lt_succ_of_lt hlt, fun b hb => ?_⟩
    rcases hrows b hb with hb' | rfl
    · exact hgone b hb'
    · omega
  · rw [hlog]
    exact h.live
  · exact (h.minted i k' src row' (hlog ▸ hmem)).mono hg
  · rw [hlog]
    exact h.once

end

/-! ### The handlers -/

abbrev Sound {α : Type} (tools : Tools) (reqs : List Request) (i : ℕ) (Q : α → State → Prop)
    (p : Run α) (s : State) : Prop :=
  p.Safe (Inv tools reqs) (Rely i) (Guar i) Q s

section

variable {α β : Type} {tools : Tools} {reqs : List Request} {i : ℕ} {s s' : State}
  {Q : α → State → Prop} {f : TokenForm} {kind : Kind} {src : Source} {row rt : TokenRow}
  {clientID userID scope resource tokenHash : String} {a : α} {k : Except String String → Run α}
  {c : Client}

theorem sound_getClient_bind {k : Option Client → Run α}
    (hnone : ∀ t, Rely i s t → Sound tools reqs i Q (k none) t)
    (hsome : ∀ t c, Rely i s t → t.client clientID = some c → Sound tools reqs i Q (k (some c)) t) :
    Sound tools reqs i Q (getClient clientID >>= k) s := by
  refine safe_act_bind.mpr fun t hR hI e => ⟨hI, Guar.refl i t, ?_⟩
  by_cases herr : e.storeErr = none
  · simp only [herr, if_true]
    cases hc : find Client.clientID clientID t.clients with
    | none => exact hnone t hR
    | some c => exact hsome t c hR hc
  · simp only [herr, if_false]
    exact hnone t hR

theorem createClient_sound {r : Registration} {k : Except String (Client × String) → Run α}
    (hk : ∀ a t, Sound tools reqs i Q (k a) t) :
    Sound tools reqs i Q (createClient tools r >>= k) s := by
  refine safe_act_bind.mpr fun t _ hI e => ?_
  dsimp only
  split
  · exact ⟨hI, Guar.refl i t, hk _ _⟩
  split
  · exact ⟨hI, Guar.refl i t, hk _ _⟩
  have hclients : ∀ id c c', t.client id = some c →
      find Client.clientID id (t.clients ++ [c']) = some c := by
    intro id c c' hc
    rw [find_append, show find Client.clientID id t.clients = some c from hc]
    rfl
  refine ⟨hI.shrink (fun _ h => h) (fun _ h => h) rfl rfl fun id c hc => hclients id c _ hc,
    .of_log rfl fun id c hc => hclients id c _ hc, hk _ _⟩

theorem register_sound (r : Registration) :
    Sound tools reqs i (fun _ _ => True) (handleOAuthRegister tools r) s := by
  unfold handleOAuthRegister
  split
  · exact safe_true
  split
  · exact safe_true
  refine createClient_sound fun a t => ?_
  cases a with
  | error _ | ok _ => exact safe_true

theorem createCode_sound {f : AuthorizeForm} (hreq : reqs[i]? = some (.authorize f))
    (hdeny : f.action ≠ "deny") (hc : s.client f.clientID = some c)
    (huri : c.hasRedirectURI f.redirectURI = true) (hk : ∀ a t, Sound tools reqs i Q (k a) t) :
    Sound tools reqs i Q (createCode i f >>= k) s := by
  refine safe_act_bind.mpr fun t hR hI e => ?_
  cases e.random with
  | error err => exact ⟨hI, Guar.refl i t, hk _ _⟩
  | ok code => ?_
  let ac : AuthCode :=
    { serial := t.next, code := code, clientID := f.clientID, userID := f.userID
      redirectURI := f.redirectURI, codeChallenge := f.codeChallenge
      scope := if f.scope = "" then "mcp" else f.scope, resource := f.resource
      createdAt := e.now, expiresAt := e.now + codeLifetime }
  have hdrop : Inv tools reqs { t with codes := delete AuthCode.code code t.codes } :=
    hI.shrink (fun _ h => mem_of_mem_filter h) (fun _ h => h) rfl rfl fun _ _ h => h
  have happ : Approves reqs { t with codes := delete AuthCode.code code t.codes } i ac :=
    ⟨f, hreq, hdeny, rfl, rfl, rfl, rfl, rfl, rfl, c, hR.clients _ c hc, huri⟩
  have hcons := hdrop.cons (e := .approved i ac) happ
  exact ⟨hcons.addCode rfl ⟨i, mem_cons_self⟩, Guar.of_cons rfl rfl rfl, hk _ _⟩

theorem authorize_sound {f : AuthorizeForm} (hreq : reqs[i]? = some (.authorize f)) :
    Sound tools reqs i (fun _ _ => True) (handleOAuthAuthorizePost tools i f) s := by
  refine sound_getClient_bind (fun t _ => safe_true) fun t c _ hc => ?_
  dsimp only
  split
  · exact safe_true
  next huri =>
  split
  · exact safe_true
  split
  · exact safe_true
  next hdeny =>
  have hhas : c.hasRedirectURI f.redirectURI = true := by simp_all
  refine createCode_sound hreq hdeny hc hhas fun a t => ?_
  cases a with
  | error _ | ok _ => exact safe_true

theorem Rely.grows (h : Rely i s s') : Grows s s' := ⟨fun _ he => h.mem he, h.clients⟩

theorem Grows.trans {s'' : State} (h : Grows s s') (h' : Grows s' s'') : Grows s s'' :=
  ⟨fun e he => h'.log e (h.log e he), fun id c hc => h'.clients id c (h.clients id c hc)⟩

theorem Inv.mint (h : Inv tools reqs s) (hrow : Justifies tools reqs s i row src)
    (hun : Unminted i kind s) (hserial : row.serial = s.next) :
    Inv tools reqs
      { s.insert row kind with next := s.next + 1, log := .minted i kind src row :: s.log } := by
  have hcons := h.cons (e := .minted i kind src row) ⟨hrow, hun⟩
  have hadd : Inv tools reqs
      { ({ s with log := .minted i kind src row :: s.log } : State).insert row kind with
        next := s.next + 1 } := hcons.addRow hserial
  cases kind <;> exact hadd

theorem guar_mint (i : ℕ) (s : State) :
    Guar i s
      { s.insert row kind with next := s.next + 1, log := .minted i kind src row :: s.log } := by
  cases kind <;> exact Guar.of_cons rfl rfl rfl

theorem mint_sound {k : Except String String → Run α}
    (hj : ∀ row, row.For userID clientID scope resource → Justifies tools reqs s i row src)
    (hun : Unminted i kind s)
    (hk : ∀ a t, Grows s t → (∀ k', k' ≠ kind → Unminted i k' s → Unminted i k' t) →
      Sound tools reqs i Q (k a) t) :
    Sound tools reqs i Q (mint tools i kind src userID clientID scope resource >>= k) s := by
  refine safe_act_bind.mpr fun t hR hI e => ?_
  have hsame : ∀ a, Sound tools reqs i Q (k a) t :=
    fun a => hk a t hR.grows fun _ _ h => h.rely hR
  dsimp only
  split
  · exact ⟨hI, Guar.refl i t, hsame _⟩
  split
  · exact ⟨hI, Guar.refl i t, hsame _⟩
  have hrow := (hj ⟨t.next, tools.sha256 e.uuid, userID, clientID, scope, resource,
    e.now + kind.lifetime⟩ ⟨rfl, rfl, rfl, rfl⟩).mono hR.grows
  refine ⟨hI.mint hrow (hun.rely hR) rfl, guar_mint i t, hk _ _ ?_ fun k' hk' hun' => ?_⟩
  · exact hR.grows.trans ⟨fun e he => mem_cons_of_mem _ he, (guar_mint i t).clients⟩
  · exact (hun'.rely hR).cons (fun _ _ heq => hk' (Entry.minted.inj heq).2.1) rfl

variable (hun : ∀ k, Unminted i k s)

include hun

theorem mintPair_sound
    (hj : ∀ row, row.For userID clientID scope resource → Justifies tools reqs s i row src) :
    Sound tools reqs i (fun _ _ => True)
      (mintPair tools i src userID clientID scope resource) s := by
  refine mint_sound hj (hun .access) fun a t hg hkeep => ?_
  cases a with
  | error err => exact safe_true
  | ok accessToken => ?_
  refine mint_sound (fun row hrow => (hj row hrow).mono hg)
    (hkeep .refresh (by decide) (hun .refresh)) fun a t' _ _ => ?_
  cases a with
  | error _ | ok _ => exact safe_true

theorem consumeCode_sound {code : String} {k : Option AuthCode → Run α}
    (hnone : ∀ t, Sound tools reqs i Q (k none) t)
    (hsome : ∀ ac now t, ac.code = code → Grows s t → .consumed i ac now ∈ t.log →
      (∀ k, Unminted i k t) → Sound tools reqs i Q (k (some ac)) t) :
    Sound tools reqs i Q (consumeCode i code >>= k) s := by
  refine safe_act_bind.mpr fun t hR hI e => ?_
  cases hfind : find AuthCode.code code t.codes with
  | none => exact ⟨hI, Guar.refl i t, hnone t⟩
  | some ac => ?_
  have hmem := mem_of_find hfind
  have hcode := key_of_find hfind
  -- the code is gone from the map, whether it has expired or not
  have hdrop : Inv tools reqs { t with codes := delete AuthCode.code code t.codes } :=
    hI.shrink (fun _ h => mem_of_mem_filter h) (fun _ h => h) rfl rfl fun _ _ h => h
  by_cases hexp : ac.expiresAt < e.now
  · simp only [hexp, if_true]
    exact ⟨hdrop, Guar.of_log_eq rfl rfl, hnone _⟩
  simp only [hexp, if_false]
  obtain ⟨hlt, happ⟩ := hI.codes ac hmem
  have hgone : ∀ ac' ∈ delete AuthCode.code code t.codes, ac'.serial ≠ ac.serial := by
    intro ac' hac' heq
    obtain ⟨hin, hne⟩ := mem_filter.mp hac'
    obtain rfl := hI.codeSerials ac' hin ac hmem heq
    simp [hcode] at hne
  have hnot : ∀ j ac' now', .consumed j ac' now' ∈ t.log → ac'.serial ≠ ac.serial :=
    fun j ac' now' h heq => (hI.taken j ac' now' h).2.1 ac hmem heq.symm
  refine ⟨hdrop.cons (e := .consumed i ac e.now) ⟨hlt, hgone, happ, by omega, hnot⟩,
    Guar.of_cons rfl rfl rfl, hsome ac e.now _ hcode ?_ mem_cons_self fun k => ?_⟩
  · exact hR.grows.trans ⟨fun e he => mem_cons_of_mem _ he, fun _ _ h => h⟩
  · exact ((hun k).rely hR).cons (by simp) rfl

theorem exchangeCode_sound (hreq : reqs[i]? = some (.token f))
    (hgrant : f.grantType = "authorization_code") (hc : s.client f.clientID = some c)
    (hauth : Authenticated tools c f) :
    Sound tools reqs i (fun _ _ => True) (exchangeCode tools i f) s := by
  refine consumeCode_sound hun (fun t => safe_true) ?_
  intro ac now t hcode hg hmem hun'
  dsimp only
  split
  · exact safe_true
  next hid =>
  split
  · exact safe_true
  next huri =>
  split
  · exact safe_true
  next hch =>
  rw [ne_eq, not_not] at hid huri hch
  refine mintPair_sound hun' fun row hrow => ⟨?_, hid ▸ hrow⟩
  exact ⟨f, hreq, hgrant, hcode.symm, hid.symm, huri.symm, hch, ⟨now, hmem⟩, c,
    hid ▸ hg.clients _ c hc, hauth⟩

theorem validateSecret_sound {secret : String} :
    Sound tools reqs i (fun ok t => (∀ k, Unminted i k t) ∧
        (ok = true → ∃ c, t.client clientID = some c ∧ c.accepts tools secret = true))
      (validateSecret tools clientID secret) s := by
  refine sound_getClient_bind (fun t hR => ?_) fun t c hR hc => ?_
  · exact safe_pure fun t' hR' => ⟨fun k => (hun k).rely (hR.trans hR'), nofun⟩
  exact safe_pure fun t' hR' => ⟨fun k => (hun k).rely (hR.trans hR'), fun hok =>
    ⟨c, hR'.clients _ c hc, hok⟩⟩

theorem authorizationCode_sound (hreq : reqs[i]? = some (.token f))
    (hgrant : f.grantType = "authorization_code") :
    Sound tools reqs i (fun _ _ => True) (handleTokenAuthorizationCode tools i f) s := by
  unfold handleTokenAuthorizationCode
  split
  · exact safe_true
  refine sound_getClient_bind (fun t _ => safe_true) fun t c hR hc => ?_
  have hun' := fun k => (hun k).rely hR
  dsimp only
  split
  · refine Safe.bind (validateSecret_sound hun') fun ok t' ⟨hun'', hok⟩ => ?_
    cases ok with
    | true =>
      obtain ⟨c', hc', haccepts⟩ := hok rfl
      exact exchangeCode_sound hun'' hreq hgrant hc' fun _ => haccepts
    | false => exact safe_true
  · next hpublic => exact exchangeCode_sound hun' hreq hgrant hc fun h => absurd h hpublic

theorem selectRefresh_sound {k : Option TokenRow → Run α}
    (hnone : ∀ t, Sound tools reqs i Q (k none) t)
    (hsome : ∀ rt t, rt.tokenHash = tokenHash → .read i rt ∈ t.log → (∀ k, Unminted i k t) →
      Sound tools reqs i Q (k (some rt)) t) :
    Sound tools reqs i Q (selectRefresh i tokenHash >>= k) s := by
  refine safe_act_bind.mpr fun t hR hI e => ?_
  split
  · next rt _ hfind =>
    have hmem := mem_of_find hfind
    refine ⟨hI.cons (e := .read i rt) ⟨hI.rows rt hmem, fun rt' hrt' heq => ?_, ?_⟩,
      Guar.of_cons rfl rfl rfl, hsome rt _ (key_of_find hfind) mem_cons_self fun k => ?_⟩
    · exact hI.rowSerials rt' hrt' rt hmem heq
    · exact fun j rt' now h heq => (hI.removed j rt' now h).2.2 rt hmem heq.symm
    · exact ((hun k).rely hR).cons (by simp) rfl
  · exact ⟨hI, Guar.refl i t, hnone t⟩

theorem deleteRefresh_sound {now : ℤ} {k : Unit → Run α}
    (hread : .read i rt ∈ s.log)
    (hk : ∀ t executed, .read i rt ∈ t.log → .removed i rt now executed ∈ t.log →
      (∀ k, Unminted i k t) → Sound tools reqs i Q (k ()) t) :
    Sound tools reqs i Q (deleteRefresh i rt now >>= k) s := by
  refine safe_act_bind.mpr fun t hR hI e => ?_
  have hread' := hR.mem hread
  cases e.storeErr with
  | some err =>
    -- a statement that fails is only logged, and the request goes on
    exact ⟨hI.cons (e := .removed i rt now false) nofun, Guar.of_cons rfl rfl rfl,
      hk _ false (mem_cons_of_mem _ hread') mem_cons_self fun k =>
        ((hun k).rely hR).cons (by simp) rfl⟩
  | none => ?_
  obtain ⟨hlt, hsame⟩ := hI.read i rt hread'
  have hdrop : Inv tools reqs
      { t with refreshTokens := delete TokenRow.tokenHash rt.tokenHash t.refreshTokens } :=
    hI.shrink (fun _ h => h) (fun _ h => mem_of_mem_filter h) rfl rfl fun _ _ h => h
  have hgone : ∀ rt' ∈ delete TokenRow.tokenHash rt.tokenHash t.refreshTokens,
      rt'.serial ≠ rt.serial := by
    intro rt' hrt' heq
    obtain ⟨hin, hne⟩ := mem_filter.mp hrt'
    rw [hsame rt' hin heq] at hne
    simp at hne
  exact ⟨hdrop.cons (e := .removed i rt now true) fun _ => ⟨hread', hlt, hgone⟩,
    Guar.of_cons rfl rfl rfl, hk _ true (mem_cons_of_mem _ hread') mem_cons_self fun k =>
      ((hun k).rely hR).cons (by simp) rfl⟩

/-- What is known of a refresh token that was taken. -/
def Took (i : ℕ) (tokenHash : String) (rt : TokenRow) (s : State) : Prop :=
  rt.tokenHash = tokenHash ∧ .read i rt ∈ s.log ∧
    (∃ now executed, .removed i rt now executed ∈ s.log ∧ now ≤ rt.expiresAt) ∧
    ∀ k, Unminted i k s

omit hun in
theorem Took.rely (h : Took i tokenHash rt s) (hR : Rely i s s') : Took i tokenHash rt s' := by
  obtain ⟨hhash, hread, ⟨now, executed, hremoved, hle⟩, hun⟩ := h
  exact ⟨hhash, hR.mem hread, ⟨now, executed, hR.mem hremoved, hle⟩, fun k => (hun k).rely hR⟩

theorem consumeRefresh_sound {rawToken : String} :
    Sound tools reqs i (fun r t => ∀ rt, r = some rt → Took i (tools.sha256 rawToken) rt t)
      (consumeRefresh tools i rawToken) s := by
  refine selectRefresh_sound hun (fun t => safe_pure fun _ _ => nofun) ?_
  intro rt t hhash hread hun'
  refine safe_act_bind.mpr fun t1 hR1 hI1 e => ⟨hI1, Guar.refl i t1, ?_⟩
  refine deleteRefresh_sound (fun k => (hun' k).rely hR1) (hR1.mem hread) ?_
  intro t' executed hread' hremoved hun''
  split
  · exact safe_pure fun _ _ => nofun
  next hexp =>
  have htook : Took i (tools.sha256 rawToken) rt t' :=
    ⟨hhash, hread', ⟨e.now, executed, hremoved, by omega⟩, hun''⟩
  refine safe_pure fun t'' hR'' rt' heq => ?_
  rw [← some.inj heq]
  exact htook.rely hR''

theorem exchangeRefresh_sound (hreq : reqs[i]? = some (.token f))
    (hgrant : f.grantType = "refresh_token") :
    Sound tools reqs i (fun _ _ => True) (exchangeRefresh tools i f) s := by
  refine Safe.bind (consumeRefresh_sound hun) fun r t htook => ?_
  cases r with
  | none => exact safe_true
  | some rt => ?_
  obtain ⟨hhash, hread, hremoved, hun'⟩ := htook rt rfl
  dsimp only
  split
  · exact safe_true
  next hid =>
  refine mintPair_sound hun' fun row hrow => ⟨?_, hrow⟩
  obtain ⟨now, executed, hremoved, hle⟩ := hremoved
  refine ⟨f, hreq, hgrant, hhash.symm, ?_, hread, now, executed, hremoved, hle⟩
  rw [not_and_or, not_not, not_not] at hid
  exact hid.imp_right Eq.symm

theorem refresh_sound (hreq : reqs[i]? = some (.token f)) (hgrant : f.grantType = "refresh_token") :
    Sound tools reqs i (fun _ _ => True) (handleTokenRefresh tools i f) s := by
  unfold handleTokenRefresh
  split
  · exact safe_true
  split
  · exact exchangeRefresh_sound hun hreq hgrant
  exact sound_getClient_bind (fun t _ => safe_true) fun t _ hR _ =>
    exchangeRefresh_sound (fun k => (hun k).rely hR) hreq hgrant

theorem run_sound {r : Request} (hreq : reqs[i]? = some r) :
    Sound tools reqs i (fun _ _ => True) (r.run tools i) s := by
  cases r with
  | register r => exact register_sound r
  | authorize f => exact authorize_sound hreq
  | token f => ?_
  rw [Request.run, handleOAuthToken]
  split
  · next hgrant => exact authorizationCode_sound hun hreq hgrant
  split
  · next hgrant => exact refresh_sound hun hreq hgrant
  · exact safe_true

end

/-! ### Whole runs -/

theorem world_inv {tools : Tools} {reqs : List Request} (ev : WorldEvent) (s : State)
    (h : Inv tools reqs s) : Inv tools reqs (world ev s) ∧ ∀ i, Rely i s (world ev s) := by
  cases ev with
  | cleanup now =>
    exact ⟨h.shrink (fun _ hm => mem_of_mem_filter hm) (fun _ hm => mem_of_mem_filter hm)
      rfl rfl fun _ _ hc => hc, fun i => .of_log rfl fun _ _ hc => hc⟩
  | userDeleted userID =>
    exact ⟨h.shrink (fun _ hm => hm) (fun _ hm => mem_of_mem_filter hm) rfl rfl
      fun _ _ hc => hc, fun i => .of_log rfl fun _ _ hc => hc⟩

theorem mem_numbered {rows : List TokenRow} {rt : TokenRow} (h : rt ∈ numbered rows) :
    ∃ row, rows[rt.serial]? = some row ∧ rt = { row with serial := rt.serial } := by
  obtain ⟨n, hn⟩ := mem_iff_getElem?.mp h
  rw [numbered, getElem?_mapIdx] at hn
  obtain ⟨row, hrow, rfl⟩ := map_eq_some_iff.mp hn
  exact ⟨row, hrow, rfl⟩

theorem inv_start (tools : Tools) (clients : List Client) (rows : List TokenRow)
    (reqs : List Request) : Inv tools reqs (requests tools clients rows reqs).state where
  codes := by simp [requests]
  codeSerials := by simp [requests]
  approved := by simp [requests]
  taken := by simp [requests]
  takenOnce := by simp [requests]
  rows rt hrt := by
    obtain ⟨row, hrow, -⟩ := mem_numbered hrt
    exact (List.getElem?_eq_some_iff.mp hrow).1
  rowSerials a ha b hb heq := by
    obtain ⟨row, hrow, ha'⟩ := mem_numbered ha
    obtain ⟨row', hrow', hb'⟩ := mem_numbered hb
    rw [heq, hrow'] at hrow
    rw [ha', hb', heq, some.inj hrow]
  read := by simp [requests]
  removed := by simp [requests]
  live := trivial
  minted := by simp [requests]
  once := List.Pairwise.nil

/-- **The invariant holds along every run.** -/
theorem requests_inv (tools : Tools) (clients : List Client) (rows : List TokenRow)
    (reqs : List Request) (sched : List (Event WorldEvent Env)) :
    Inv tools reqs ((requests tools clients rows reqs).exec world sched).state := by
  have hsafe : (requests tools clients rows reqs).AllSafe (Inv tools reqs) Rely Guar
      (fun _ _ _ => True) := by
    refine Pool.allSafe_mapIdx (inv_start tools clients rows reqs) fun i r hr => run_sound ?_ hr
    exact fun k src row hmem => nomatch hmem
  exact (Pool.exec_safe Rely.refl (fun _ _ _ _ => Rely.trans)
    (fun i j hij _ _ _ h => h.rely hij) world_inv hsafe sched).inv

end ArcRelay.Provider
