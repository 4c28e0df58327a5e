import ArcRelay.Provider.Ledger

/-!
# The two grants

What the authorization server promises of the tokens it mints, read off its history.

A code is worth one pair of tokens, and only to the client that the user has approved: the
code is taken out of the map before anything else is looked at.  A refresh token is looked
up first and deleted then, and the client is compared after that, so two requests can find
the same token, and a request of another client destroys it.  And a client that has a
secret must show it for a code, but not for a refresh token.

* `SingleUse`, `InTurn`: what should hold of refresh tokens, and when it does.
* `Confidential`, `Accompanied`: the same for clients with a secret.
* `code_redeemed_once`, `refresh_redeemed_once`, `secret_shown`: the theorems.
-/

namespace ArcRelay.Provider

open Interleave List Option

def mintedFor (k : Kind) (p : Source → Bool) (log : List Entry) : List Entry :=
  log.filter fun
    | .minted _ k' src _ => k' = k && p src
    | _ => false

def Source.isCode (n : ℕ) : Source → Bool
  | .code ac => ac.serial = n
  | .refresh _ => false

def Source.isRefresh (n : ℕ) : Source → Bool
  | .code _ => false
  | .refresh rt => rt.serial = n

variable {k : Kind} {p : Source → Bool}

theorem mem_mintedFor {log : List Entry} {e : Entry} :
    e ∈ mintedFor k p log ↔ ∃ i src row, e = .minted i k src row ∧ e ∈ log ∧ p src = true := by
  rw [mintedFor, mem_filter]
  constructor
  · rintro ⟨hmem, hp⟩
    cases e with
    | minted i k' src row =>
      rw [Bool.and_eq_true, decide_eq_true_eq] at hp
      obtain ⟨rfl, hsrc⟩ := hp
      exact ⟨i, src, row, rfl, hmem, hsrc⟩
    | _ => cases hp
  · rintro ⟨i, src, row, rfl, hmem, hsrc⟩
    exact ⟨hmem, by simp [hsrc]⟩

theorem length_mintedFor_le {tools : Tools} {reqs : List Request} {s : State}
    (h : Inv tools reqs s)
    (hone : ∀ i j src src' row row', .minted i k src row ∈ s.log → .minted j k src' row' ∈ s.log →
      p src = true → p src' = true → i = j) : (mintedFor k p s.log).length ≤ 1 := by
  have hpair : (mintedFor k p s.log).Pairwise fun e e' => ¬ SameMint e e' :=
    h.once.sublist filter_sublist
  cases hl : mintedFor k p s.log with
  | nil => simp
  | cons e rest => ?_
  cases rest with
  | nil => simp
  | cons e' rest => ?_
  exfalso
  rw [hl] at hpair
  obtain ⟨i, src, row, rfl, hmem, hsrc⟩ := mem_mintedFor.mp (hl ▸ mem_cons_self)
  obtain ⟨j, src', row', rfl, hmem', hsrc'⟩ :=
    mem_mintedFor.mp (hl ▸ mem_cons_of_mem _ mem_cons_self)
  have hij := hone i j src src' row row' hmem hmem' hsrc hsrc'
  exact (pairwise_cons.mp hpair).1 _ mem_cons_self ⟨hij, rfl⟩

/-! ### Codes -/

/-- **A code yields one pair, to whom it was approved for**: in every run, at most one access
token and one refresh token are minted for a code; the request has the client and the
redirect URI of the approval, the redirect URI is registered for the client, the code was
taken before it expired, and the verifier fits the challenge; and the token carries the
user, the scope and the resource of the approval. -/
theorem code_redeemed_once (tools : Tools) (clients : List Client) (rows : List TokenRow)
    (reqs : List Request) (sched : List (Event WorldEvent Env)) :
    let s := ((requests tools clients rows reqs).exec world sched).state
    (∀ k n, (mintedFor k (Source.isCode n) s.log).length ≤ 1) ∧
      ∀ i k ac row, .minted i k (.code ac) row ∈ s.log →
        ∃ j f g c now, reqs[j]? = some (.authorize f) ∧ f.action ≠ "deny" ∧
          .approved j ac ∈ s.log ∧ reqs[i]? = some (.token g) ∧
          g.code = ac.code ∧ g.clientID = f.clientID ∧ g.redirectURI = f.redirectURI ∧
          s.client f.clientID = some c ∧ c.hasRedirectURI f.redirectURI = true ∧
          .consumed i ac now ∈ s.log ∧ now ≤ ac.expiresAt ∧
          tools.computeCodeChallenge g.codeVerifier = f.codeChallenge ∧
          row.For f.userID f.clientID (if f.scope = "" then "mcp" else f.scope) f.resource := by
  intro s
  have hinv : Inv tools reqs s := requests_inv tools clients rows reqs sched
  refine ⟨fun k n => length_mintedFor_le hinv ?_, fun i k ac row hmem => ?_⟩
  · intro i j src src' row row' hmem hmem' hsrc hsrc'
    cases src with
    | refresh rt => cases hsrc
    | code ac => ?_
    cases src' with
    | refresh rt => cases hsrc'
    | code ac' => ?_
    obtain ⟨⟨-, -, -, -, -, -, -, ⟨now, hnow⟩, -⟩, -⟩ := hinv.minted i k _ row hmem
    obtain ⟨⟨-, -, -, -, -, -, -, ⟨now', hnow'⟩, -⟩, -⟩ := hinv.minted j k _ row' hmem'
    refine hinv.takenOnce i j ac ac' now now' hnow hnow' ?_
    rw [of_decide_eq_true hsrc, of_decide_eq_true hsrc']
  · obtain ⟨⟨g, hg, -, hcode, hid, huri, hch, ⟨now, hnow⟩, -⟩, hrow⟩ := hinv.minted i k _ row hmem
    obtain ⟨-, -, ⟨j, happ⟩, hle⟩ := hinv.taken i ac now hnow
    obtain ⟨f, hf, hdeny, hclient, huser, huri', hch', hscope, hres, c, hc, hhas⟩ :=
      hinv.approved j ac happ
    rw [hclient] at hid hrow
    rw [huri'] at huri
    rw [hch'] at hch
    rw [huser, hscope, hres] at hrow
    exact ⟨j, f, g, c, now, hf, hdeny, happ, hg, hcode, hid, huri, hc, hhas, hnow, hle, hch, hrow⟩

def demoTools : Tools where
  sha256 := fun text => "sha256:" ++ text
  computeCodeChallenge := fun verifier => "S256:" ++ verifier
  redirectURIError := fun _ => none
  parsesAsURL := fun _ => true

def demoClient : Client where
  clientID := "c1"
  clientSecretHash := "sha256:s1"
  redirectURIs := ["http://localhost/cb"]
  tokenEndpointAuthMethod := "client_secret_post"

/-! ### Refresh tokens -/

variable {tools : Tools} {reqs : List Request} {log : List Entry} {e : Entry} {i : ℕ}
  {rt : TokenRow}

def Mismatched (reqs : List Request) (i : ℕ) (rt : TokenRow) : Prop :=
  ∃ f, reqs[i]? = some (.token f) ∧ f.clientID ≠ "" ∧ f.clientID ≠ rt.clientID

/-- A refresh token yields one pair, and no request of another client deletes it while it
is good. -/
structure SingleUse (reqs : List Request) (s : State) : Prop where
  once : ∀ k n, (mintedFor k (Source.isRefresh n) s.log).length ≤ 1
  kept : ∀ i rt now, .removed i rt now true ∈ s.log → now ≤ rt.expiresAt → ¬ Mismatched reqs i rt

/-- The condition on a run: whoever has found a refresh token before has got past deleting
it when another finds it, no request names another client than that of the refresh token it
finds, and no deletion fails. -/
def InTurn (reqs : List Request) : List Entry → Prop
  | [] => True
  | .read i rt :: log =>
    (∀ j rt', j ≠ i → .read j rt' ∈ log → rt'.serial = rt.serial →
      ∃ now executed, .removed j rt' now executed ∈ log) ∧
      ¬ Mismatched reqs i rt ∧ InTurn reqs log
  | .removed _ _ _ executed :: log => executed = true ∧ InTurn reqs log
  | _ :: log => InTurn reqs log

theorem InTurn.tail (h : InTurn reqs (e :: log)) : InTurn reqs log := by
  cases e with
  | read i rt => exact h.2.2
  | removed i rt now executed => exact h.2
  | _ => exact h

theorem ReadLive.tail (h : ReadLive (e :: log)) : ReadLive log := by
  cases e with
  | read i rt => exact h.2
  | _ => exact h

theorem InTurn.executed {now : ℤ} {executed : Bool} (h : InTurn reqs log)
    (hmem : .removed i rt now executed ∈ log) : executed = true := by
  induction log with
  | nil => cases hmem
  | cons e log ih => ?_
  rcases mem_cons.mp hmem with rfl | hold
  · exact h.1
  · exact ih h.tail hold

theorem InTurn.not_mismatched (h : InTurn reqs log) (hmem : .read i rt ∈ log) :
    ¬ Mismatched reqs i rt := by
  induction log with
  | nil => cases hmem
  | cons e log ih => ?_
  rcases mem_cons.mp hmem with rfl | hold
  · exact h.2.1
  · exact ih h.tail hold

theorem InTurn.readOnce {j : ℕ} {rt' : TokenRow} (h : InTurn reqs log) (hlive : ReadLive log)
    (hi : .read i rt ∈ log) (hj : .read j rt' ∈ log) (heq : rt.serial = rt'.serial) : i = j := by
  induction log with
  | nil => cases hi
  | cons e log ih => ?_
  by_contra hne
  have hclash : ∀ i j rt rt', i ≠ j → e = .read i rt → .read j rt' ∈ log →
      rt'.serial = rt.serial → False := by
    rintro i j rt rt' hij rfl hold hser
    obtain ⟨now, executed, hremoved⟩ := h.1 j rt' hij.symm hold hser
    obtain rfl := h.tail.executed hremoved
    exact hlive.1 j rt' now hremoved hser
  rcases mem_cons.mp hi with hi' | hi'
  · rcases mem_cons.mp hj with hj' | hj'
    · rw [← hi'] at hj'
      exact hne (Entry.read.inj hj').1.symm
    · exact hclash i j rt rt' hne hi'.symm hj' heq.symm
  · rcases mem_cons.mp hj with hj' | hj'
    · exact hclash j i rt' rt (Ne.symm hne) hj'.symm hi' heq
    · exact hne (ih h.tail hlive.tail hi' hj')

/-- **A refresh token yields one pair if requests take turns** at it, and only requests of
its own client, or of none, come with it. -/
theorem refresh_redeemed_once (tools : Tools) (clients : List Client) (rows : List TokenRow)
    (reqs : List Request) (sched : List (Event WorldEvent Env))
    (hrun : InTurn reqs ((requests tools clients rows reqs).exec world sched).state.log) :
    SingleUse reqs ((requests tools clients rows reqs).exec world sched).state := by
  have hinv := requests_inv tools clients rows reqs sched
  refine ⟨fun k n => length_mintedFor_le hinv ?_, fun i rt now hmem _ => ?_⟩
  · intro i j src src' row row' hmem hmem' hsrc hsrc'
    cases src with
    | code ac => cases hsrc
    | refresh rt => ?_
    cases src' with
    | code ac => cases hsrc'
    | refresh rt' => ?_
    obtain ⟨⟨-, -, -, -, -, hread, -⟩, -⟩ := hinv.minted i k _ row hmem
    obtain ⟨⟨-, -, -, -, -, hread', -⟩, -⟩ := hinv.minted j k _ row' hmem'
    refine hrun.readOnce hinv.live hread hread' ?_
    rw [of_decide_eq_true hsrc, of_decide_eq_true hsrc']
  · -- who deletes a token has found it
    exact hrun.not_mismatched (hinv.removed i rt now hmem).1

def demoRow : TokenRow where
  serial := 0
  tokenHash := "sha256:r1"
  userID := "u1"
  clientID := "c1"
  scope := "mcp"
  resource := ""
  expiresAt := 1000

def demoRefresh (clientID clientSecret : String) : TokenForm where
  grantType := "refresh_token"
  clientID := clientID
  clientSecret := clientSecret
  refreshToken := "r1"

theorem refresh_redeemed_once_alone :
    let reqs : List Request := [.token (demoRefresh "" ""), .token (demoRefresh "" "")]
    let P := (requests demoTools [] [demoRow] reqs).exec world
      (replicate 5 (.run 0 { uuid := "t1" }) ++ [.run 1 { uuid := "t2" }])
    P.result 0 = some (.tokens "t1" "t1" "mcp") ∧ P.result 1 = some (.oauthError 400
      "invalid_grant" "invalid or expired refresh token") ∧ SingleUse reqs P.state := by
  intro reqs P
  have hlog : P.state.log =
      [.minted 0 .refresh (.refresh demoRow) ⟨2, "sha256:t1", "u1", "c1", "mcp", "", 2592000⟩,
        .minted 0 .access (.refresh demoRow) ⟨1, "sha256:t1", "u1", "c1", "mcp", "", 3600⟩,
        .removed 0 demoRow 0 true, .read 0 demoRow] := by
    decide +kernel
  have hfirst : P.result 0 = some (.tokens "t1" "t1" "mcp") := by decide +kernel
  have hsecond : P.result 1 =
      some (.oauthError 400 "invalid_grant" "invalid or expired refresh token") := by
    decide +kernel
  have honce : InTurn reqs P.state.log → SingleUse reqs P.state :=
    refresh_redeemed_once demoTools [] [demoRow] reqs _
  -- the run is not to be evaluated again
  clear_value P
  refine ⟨hfirst, hsecond, honce ?_⟩
  rw [hlog]
  refine ⟨rfl, by simp, ?_, trivial⟩
  rintro ⟨f, hf, hne, -⟩
  obtain rfl := Request.token.inj (some.inj hf)
  exact hne rfl

/-- **A refresh token is redeemed twice** by two requests that both find it before either
deletes it; and a request that is rejected because it names another client has deleted it. -/
theorem refresh_redeemed_twice :
    let reqs : List Request := [.token (demoRefresh "" ""), .token (demoRefresh "" "")]
    let P := (requests demoTools [] [demoRow] reqs).exec world
      ([.run 0 {}, .run 1 {}] ++ replicate 4 (.run 0 { uuid := "t1" }) ++
        replicate 4 (.run 1 { uuid := "t2" }))
    let other : List Request := [.token (demoRefresh "c2" "")]
    let P' := (requests demoTools [{ clientID := "c2", redirectURIs := [] }] [demoRow] other).exec
      world (replicate 4 (.run 0 {}))
    P.result 0 = some (.tokens "t1" "t1" "mcp") ∧ P.result 1 = some (.tokens "t2" "t2" "mcp") ∧
      ¬ SingleUse reqs P.state ∧
      P'.result 0 = some (.oauthError 400 "invalid_grant" "client_id mismatch") ∧
      P'.state.refreshTokens = [] ∧ ¬ SingleUse other P'.state := by
  intro reqs P other P'
  have htwo : (mintedFor .access (Source.isRefresh 0) P.state.log).length = 2 := by decide +kernel
  have hgone : .removed 0 demoRow 0 true ∈ P'.state.log := by decide +kernel
  refine ⟨by decide +kernel, by decide +kernel, fun h => ?_, by decide +kernel, by decide +kernel,
    fun h => ?_⟩
  · have hone := h.once .access 0
    omega
  · exact h.kept 0 demoRow 0 hgone (by decide) ⟨demoRefresh "c2" "", rfl, by decide, by decide⟩

/-! ### Clients with a secret -/

/-- Tokens of a client that is registered with a secret are minted for requests that show
it. -/
def Confidential (tools : Tools) (reqs : List Request) (s : State) : Prop :=
  ∀ i k src row c, .minted i k src row ∈ s.log → s.client row.clientID = some c →
    c.tokenEndpointAuthMethod = "client_secret_post" →
    ∃ f, reqs[i]? = some (.token f) ∧ c.accepts tools f.clientSecret = true

/-- The condition on a run: a request that takes a good refresh token, and names its client
or none, shows the secret of the client, if it has one. -/
def Accompanied (tools : Tools) (reqs : List Request) (s : State) : Prop :=
  ∀ i rt now executed f c, .removed i rt now executed ∈ s.log → now ≤ rt.expiresAt →
    reqs[i]? = some (.token f) → (f.clientID = "" ∨ f.clientID = rt.clientID) →
    s.client rt.clientID = some c → c.tokenEndpointAuthMethod = "client_secret_post" →
    c.accepts tools f.clientSecret = true

/-- **Tokens of a client with a secret are minted for the secret**, if it is shown with
refresh tokens.  With codes it always is. -/
theorem secret_shown (tools : Tools) (clients : List Client) (rows : List TokenRow)
    (reqs : List Request) (sched : List (Event WorldEvent Env))
    (hrun : Accompanied tools reqs ((requests tools clients rows reqs).exec world sched).state) :
    Confidential tools reqs ((requests tools clients rows reqs).exec world sched).state := by
  have hinv := requests_inv tools clients rows reqs sched
  intro i k src row c hmem hc hsecret
  cases src with
  | code ac =>
    obtain ⟨⟨f, hf, -, -, -, -, -, -, c', hc', hauth⟩, -, hid, -⟩ := hinv.minted i k _ row hmem
    rw [hid] at hc
    obtain rfl := some.inj (hc.symm.trans hc')
    exact ⟨f, hf, hauth hsecret⟩
  | refresh rt =>
    obtain ⟨⟨f, hf, -, -, hid, -, now, executed, hremoved, hle⟩, -, hid', -⟩ :=
      hinv.minted i k _ row hmem
    rw [hid'] at hc
    exact ⟨f, hf, hrun i rt now executed f c hremoved hle hf hid hc hsecret⟩

theorem secret_shown_refresh :
    let reqs : List Request := [.token (demoRefresh "c1" "s1")]
    let P := (requests demoTools [demoClient] [demoRow] reqs).exec world
      (replicate 6 (.run 0 { uuid := "t1" }))
    P.result 0 = some (.tokens "t1" "t1" "mcp") ∧ Confidential demoTools reqs P.state := by
  intro reqs P
  have hclients : P.state.clients = [demoClient] := by decide +kernel
  have hrows : ∀ e ∈ P.state.log, e.owner = 0 := by decide +kernel
  have hrun : Accompanied demoTools reqs P.state := by
    intro i rt now executed f c hremoved _ hf _ hc _
    -- there is one request, with the secret, and one client
    obtain rfl : i = 0 := hrows _ hremoved
    obtain rfl := Request.token.inj (some.inj hf)
    have hmem : c ∈ P.state.clients := Table.mem_of_find hc
    rw [hclients, mem_singleton] at hmem
    rw [hmem]
    decide
  exact ⟨by decide +kernel, secret_shown demoTools [demoClient] [demoRow] reqs _ hrun⟩

/-- **A refresh token is enough**: the client is registered with a secret, and the request
has none. -/
theorem secret_not_shown :
    let reqs : List Request := [.token (demoRefresh "" "")]
    let P := (requests demoTools [demoClient] [demoRow] reqs).exec world
      (replicate 5 (.run 0 { uuid := "t1" }))
    P.result 0 = some (.tokens "t1" "t1" "mcp") ∧ ¬ Confidential demoTools reqs P.state := by
  intro reqs P
  have hminted : .minted 0 .access (.refresh demoRow)
      ⟨1, "sha256:t1", "u1", "c1", "mcp", "", 3600⟩ ∈ P.state.log := by
    decide +kernel
  have hclient : P.state.client "c1" = some demoClient := by decide +kernel
  refine ⟨by decide +kernel, fun h => ?_⟩
  obtain ⟨f, hf, haccepts⟩ := h 0 .access _ _ demoClient hminted hclient rfl
  obtain rfl := Request.token.inj (some.inj hf)
  revert haccepts
  decide

end ArcRelay.Provider
