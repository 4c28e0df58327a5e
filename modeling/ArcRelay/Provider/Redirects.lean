import ArcRelay.Lib.Url
import ArcRelay.Provider.Handlers

/-!
# Where the authorization server sends users

After an approval the relay renders a page whose script navigates to the redirect URI of the
client, with the code in its query.  A registration refuses a URI that cannot be read, and one
with the scheme `http` and another host than the local one; it says nothing of other schemes, and
anyone may register.  So a client can have the user run `javascript:` in the origin of the relay.

* `Navigable`, `Harmless`: where a browser may be sent, and the URIs that lead there.
* `success_navigable`, `success_runs_script`: the page of an approval.
-/

namespace ArcRelay.Provider

open Interleave Prog Json Url List Option

/-! ### The URLs -/

section

variable (addrs : Addresses) {uri : String}

def redirectURIError (uri : String) : Option String :=
  match parse addrs (utf8 uri) with
  | none => some ("invalid URI: " ++ uri)
  | some u =>
    if u.scheme = utf8 "http" ∧ u.hostname ≠ utf8 "localhost" ∧ u.hostname ≠ utf8 "127.0.0.1" ∧
        ¬ (utf8 "[::1]").isPrefixOf u.hostname then
      some "http redirect_uri only allowed for localhost"
    else none

def urlTools (sha256 computeCodeChallenge : String → String) : Tools where
  sha256 := sha256
  computeCodeChallenge := computeCodeChallenge
  redirectURIError := redirectURIError addrs
  parsesAsURL := fun uri => (parse addrs (utf8 uri)).isSome

def redirectURL (uri : String) (params : List (String × String)) : Option Bytes :=
  (parse addrs (utf8 uri)).map fun u =>
    let query := params.foldl (fun v p => v.set (utf8 p.1) (utf8 p.2)) (parseQuery u.rawQuery)
    { u with rawQuery := query.encode }.string

/-- `RedirectURL` of the page, which is shown when there is a code. -/
def successURL : Outcome → Option Bytes
  | .redirect uri params =>
    if params.head?.map Prod.fst = some "code" then redirectURL addrs uri params else none
  | _ => none

def scriptSchemes : List Bytes := [utf8 "javascript", utf8 "data", utf8 "vbscript"]

def localHosts : List Bytes := [utf8 "localhost", utf8 "127.0.0.1", utf8 "[::1]"]

/-- An absolute URL that a browser may be sent to: `https`, `http` on the local host, or a scheme
of an application that runs no script. -/
def Navigable (url : Bytes) : Prop :=
  ∃ scheme, browserScheme url = some scheme ∧ scheme ∉ scriptSchemes ∧
    (scheme = utf8 "http" → ∃ host ∈ localHosts, browserHost url = some host)

/-- A redirect URI has a scheme, and not one that runs script. -/
def Harmless (uri : String) : Prop :=
  ∀ u, parse addrs (utf8 uri) = some u → u.scheme ≠ [] ∧ u.scheme ∉ scriptSchemes

theorem hostname_local {u : URL} (hparse : parse addrs (utf8 uri) = some u)
    (hcheck : redirectURIError addrs uri = none) (hhttp : u.scheme = utf8 "http") :
    u.hostname = utf8 "localhost" ∨ u.hostname = utf8 "127.0.0.1" := by
  by_contra hother
  rw [not_or] at hother
  rw [redirectURIError, hparse] at hcheck
  dsimp only at hcheck
  split at hcheck
  · cases hcheck
  next hpass =>
  have hbracket : (utf8 "[::1]").isPrefixOf u.hostname := by
    by_contra hnot
    exact hpass ⟨hhttp, hother.1, hother.2, hnot⟩
  -- the host name has lost its brackets, so the check for them never holds
  obtain ⟨rest, hrest⟩ := isPrefixOf_iff_prefix.mp hbracket
  refine (parse_parsed addrs hparse).hostname_head addrs ?_
  rw [← hrest, head?_append_of_ne_nil _ (by decide +kernel)]
  decide +kernel

/-- **A redirect URI that passes the check and is harmless leads to a safe URL**, whatever its
parameters are. -/
theorem redirectURL_navigable {params : List (String × String)} {url : Bytes}
    (hcheck : redirectURIError addrs uri = none) (hharmless : Harmless addrs uri)
    (h : redirectURL addrs uri params = some url) : Navigable url := by
  obtain ⟨u, hparse, rfl⟩ := map_eq_some_iff.mp h
  obtain ⟨hscheme, hscript⟩ := hharmless u hparse
  have hparsed := parse_parsed addrs hparse
  dsimp only
  -- setting the query changes neither the scheme nor the host
  generalize (params.foldl (fun v p => v.set (utf8 p.1) (utf8 p.2)) (parseQuery u.rawQuery)).encode
    = query
  have hquery : Parsed addrs { u with rawQuery := query } := ⟨hparsed.scheme, hparsed.host⟩
  refine ⟨u.scheme, browserScheme_string (hparsed.scheme hscheme), hscript, fun hhttp => ?_⟩
  have hsees (hplain : PlainName u.hostname) :
      browserHost ({ u with rawQuery := query } : URL).string = some u.hostname :=
    hquery.browserHost addrs hscheme hplain
  rcases hostname_local addrs hparse hcheck hhttp with hname | hname
  · rw [hname] at hsees
    exact ⟨_, by simp [localHosts], hsees (by decide +kernel)⟩
  · rw [hname] at hsees
    exact ⟨_, by simp [localHosts], hsees (by decide +kernel)⟩

end

/-! ### Runs -/

variable {addrs : Addresses} {tools : Tools} {i : ℕ} {out : Outcome}

def Vetted (addrs : Addresses) (s : State) : Prop :=
  ∀ c ∈ s.clients, ∀ uri ∈ c.redirectURIs, redirectURIError addrs uri = none ∧ Harmless addrs uri

def SameClients (s s' : State) : Prop := s'.clients = s.clients

def LeadsSafely (addrs : Addresses) (out : Outcome) : Prop :=
  ∀ url, successURL addrs out = some url → Navigable url

/-- A program that leaves the clients alone and gives tokens or errors. -/
structure Quiet (addrs : Addresses) (p : Run Outcome) : Prop where
  within : p.Within SameClients
  returns : p.Returns fun out => successURL addrs out = none

theorem quiet_pure (h : successURL addrs out = none) : Quiet addrs (pure out) :=
  ⟨within_pure out, returns_pure h⟩

theorem quiet_bind {α : Type} {p : Run α} {f : α → Run Outcome} (hp : p.Within SameClients)
    (hf : ∀ a, Quiet addrs (f a)) : Quiet addrs (p >>= f) :=
  ⟨hp.bind fun a => (hf a).within, Prog.Returns.bind p fun a => (hf a).returns⟩

theorem getClient_within (clientID : String) : (getClient clientID).Within SameClients :=
  within_act.mpr fun _ _ => rfl

theorem mint_within (kind : Kind) (source : Source) (userID clientID scope resource : String) :
    (mint tools i kind source userID clientID scope resource).Within SameClients := by
  refine within_act.mpr fun s e => ?_
  dsimp only
  split
  · rfl
  split
  · rfl
  · cases kind <;> rfl

theorem mintPair_quiet (source : Source) (userID clientID scope resource : String) :
    Quiet addrs (mintPair tools i source userID clientID scope resource) := by
  refine quiet_bind (mint_within _ _ _ _ _ _) fun r => ?_
  cases r with
  | error err => exact quiet_pure rfl
  | ok accessToken => ?_
  refine quiet_bind (mint_within _ _ _ _ _ _) fun r => ?_
  cases r with
  | error _ | ok _ => exact quiet_pure rfl

theorem consumeCode_within (code : String) : (consumeCode i code).Within SameClients := by
  refine within_act.mpr fun s e => ?_
  split
  · rfl
  split
  · rfl
  · rfl

theorem exchangeCode_quiet (f : TokenForm) : Quiet addrs (exchangeCode tools i f) := by
  refine quiet_bind (consumeCode_within f.code) fun r => ?_
  cases r with
  | none => exact quiet_pure rfl
  | some ac => ?_
  dsimp only
  split
  · exact quiet_pure rfl
  split
  · exact quiet_pure rfl
  split
  · exact quiet_pure rfl
  · exact mintPair_quiet _ _ _ _ _

theorem validateSecret_within (clientID secret : String) :
    (validateSecret tools clientID secret).Within SameClients := by
  refine (getClient_within clientID).bind fun r => ?_
  cases r with
  | none => exact within_pure false
  | some c => exact within_pure _

theorem authorizationCode_quiet (f : TokenForm) :
    Quiet addrs (handleTokenAuthorizationCode tools i f) := by
  unfold handleTokenAuthorizationCode
  split
  · exact quiet_pure rfl
  refine quiet_bind (getClient_within f.clientID) fun r => ?_
  cases r with
  | none => exact quiet_pure rfl
  | some client => ?_
  dsimp only
  split
  · refine quiet_bind (validateSecret_within f.clientID f.clientSecret) fun ok => ?_
    cases ok with
    | true => exact exchangeCode_quiet f
    | false => exact quiet_pure rfl
  · exact exchangeCode_quiet f

theorem consumeRefresh_within (rawToken : String) :
    (consumeRefresh tools i rawToken).Within SameClients := by
  refine Prog.Within.bind (within_act.mpr fun s e => ?_) fun r => ?_
  · split
    · rfl
    · rfl
  cases r with
  | none => exact within_pure none
  | some rt => ?_
  refine Prog.Within.bind (within_act.mpr fun _ _ => rfl) fun now => ?_
  refine Prog.Within.bind (within_act.mpr fun s e => ?_) fun _ => ?_
  · split
    · rfl
    · rfl
  split
  · exact within_pure none
  · exact within_pure (some rt)

theorem exchangeRefresh_quiet (f : TokenForm) : Quiet addrs (exchangeRefresh tools i f) := by
  refine quiet_bind (consumeRefresh_within f.refreshToken) fun r => ?_
  cases r with
  | none => exact quiet_pure rfl
  | some rt => ?_
  dsimp only
  split
  · exact quiet_pure rfl
  · exact mintPair_quiet _ _ _ _ _

theorem tokenRefresh_quiet (f : TokenForm) : Quiet addrs (handleTokenRefresh tools i f) := by
  unfold handleTokenRefresh
  split
  · exact quiet_pure rfl
  split
  · exact exchangeRefresh_quiet f
  refine quiet_bind (getClient_within f.clientID) fun r => ?_
  cases r with
  | none => exact quiet_pure rfl
  | some c => exact exchangeRefresh_quiet f

theorem token_quiet (f : TokenForm) : Quiet addrs (handleOAuthToken tools i f) := by
  unfold handleOAuthToken
  split
  · exact authorizationCode_quiet f
  split
  · exact tokenRefresh_quiet f
  · exact quiet_pure rfl

/-- Others may register clients that are vetted. -/
abbrev Guarded (addrs : Addresses) (p : Run Outcome) (s : State) : Prop :=
  p.Safe (Vetted addrs) (fun _ _ => True) (fun _ _ => True) (fun out _ => LeadsSafely addrs out) s

theorem Vetted.same {s s' : State} (h : Vetted addrs s) (hs : SameClients s s') :
    Vetted addrs s' := by
  rw [Vetted, hs]
  exact h

theorem guarded_pure (h : LeadsSafely addrs out) (s : State) :
    Guarded addrs (pure out) s := fun _ _ _ => h

theorem Quiet.guarded {p : Run Outcome} (h : Quiet addrs p) (s : State) : Guarded addrs p s := by
  have hsafe : p.Safe (Vetted addrs) (fun _ _ => True) (fun _ _ => True) (fun _ _ => True) s :=
    h.within.safe (fun s s' hs hsame => ⟨hs.same hsame, trivial⟩) s
  refine (hsafe.returns h.returns).weaken fun out s' _ hout url hurl => ?_
  rw [hout.1] at hurl
  cases hurl

variable {sha256 computeCodeChallenge : String → String}

theorem register_guarded {r : Registration} (hr : ∀ uri ∈ r.redirectURIs, Harmless addrs uri)
    (s : State) :
    Guarded addrs (handleOAuthRegister (urlTools addrs sha256 computeCodeChallenge) r) s := by
  unfold handleOAuthRegister
  split
  · exact (quiet_pure rfl).guarded s
  split
  · exact (quiet_pure rfl).guarded s
  next hcheck =>
  rw [findSome?_eq_none_iff] at hcheck
  refine safe_act_bind.mpr fun s' _ hs e => ⟨?_, trivial, ?_⟩
  · dsimp only
    split
    · exact hs
    split
    · exact hs
    intro c hc uri huri
    rcases mem_append.mp hc with hold | hnew
    · exact hs c hold uri huri
    rw [mem_singleton.mp hnew] at huri
    exact ⟨hcheck uri huri, hr uri huri⟩
  · split
    · exact (quiet_pure rfl).guarded _
    · exact (quiet_pure rfl).guarded _

theorem authorize_guarded (f : AuthorizeForm) (s : State) :
    Guarded addrs
      (handleOAuthAuthorizePost (urlTools addrs sha256 computeCodeChallenge) i f) s := by
  refine safe_act_bind.mpr fun s' _ hs e => ⟨hs, trivial, ?_⟩
  dsimp only
  split
  · exact (quiet_pure rfl).guarded s'
  next client hfound =>
  have hclient : client ∈ s'.clients := by
    split at hfound
    · exact Table.mem_of_find hfound
    · cases hfound
  split
  · exact (quiet_pure rfl).guarded s'
  next hregistered =>
  rw [not_or, Bool.not_eq_false] at hregistered
  have huri : f.redirectURI ∈ client.redirectURIs := by
    obtain ⟨uri, hmem, heq⟩ := any_eq_true.mp hregistered.2
    rwa [← of_decide_eq_true heq]
  -- what was vetted when the client was found is so whatever happens until the page
  obtain ⟨hcheck, hharmless⟩ := hs client hclient _ huri
  have hsafe (params : List (String × String)) :
      LeadsSafely addrs (.redirect f.redirectURI params) := by
    intro url hurl
    rw [successURL] at hurl
    split at hurl
    · exact redirectURL_navigable addrs hcheck hharmless hurl
    · cases hurl
  split
  · exact (quiet_pure rfl).guarded s'
  split
  · exact guarded_pure (hsafe _) s'
  refine safe_act_bind.mpr fun t _ ht e' => ⟨?_, trivial, ?_⟩
  · split
    · exact ht
    · exact ht
  split
  · exact (quiet_pure rfl).guarded _
  · exact guarded_pure (hsafe _) _

/-- **The page of an approval leads to safe URLs**: in every run of registrations, approvals and
token requests after a start without clients, if every URI in a registration is harmless, then
the page of every approval navigates to an absolute URL with the scheme `https`, or `http` on the
local host, or one that runs no script. -/
theorem success_navigable (addrs : Addresses) (sha256 computeCodeChallenge : String → String)
    (rows : List TokenRow) (reqs : List Request) (sched : List (Event WorldEvent Env))
    (hreqs : ∀ r, .register r ∈ reqs → ∀ uri ∈ r.redirectURIs, Harmless addrs uri) (i : ℕ)
    (out : Outcome) (url : Bytes)
    (hres : ((requests (urlTools addrs sha256 computeCodeChallenge) [] rows reqs).exec world
      sched).result i = some out) (hurl : successURL addrs out = some url) : Navigable url := by
  have hinit : (requests (urlTools addrs sha256 computeCodeChallenge) [] rows reqs).AllSafe
      (Vetted addrs) (fun _ _ _ => True) (fun _ _ _ => True)
      (fun _ out _ => LeadsSafely addrs out) := by
    refine Pool.allSafe_mapIdx nofun fun j r hr => ?_
    cases r with
    | register r => exact register_guarded (hreqs r (mem_of_getElem? hr)) _
    | authorize f => exact authorize_guarded f _
    | token f => exact (token_quiet f).guarded _
  have hworld : ∀ ev s, Vetted addrs s → Vetted addrs (world ev s) ∧ ∀ _ : ℕ, True := by
    intro ev s hs
    cases ev with
    | cleanup _ | userDeleted _ => exact ⟨hs, fun _ => trivial⟩
  have hsafe := Pool.exec_safe (fun _ _ => trivial) (fun _ _ _ _ _ _ => trivial)
    (fun _ _ _ _ _ _ _ => trivial) hworld hinit sched
  exact hsafe.post (fun _ _ => trivial) hres url hurl

/-! ### A client that runs script -/

def noAddresses : Addresses where
  valid := fun _ => false
  colon := nofun
  bracket := nofun

def approvalOf (uri : String) : AuthorizeForm where
  userID := "u1"
  action := "approve"
  clientID := "c1"
  redirectURI := uri

def approvalRun (uri : String) : Pool State Env Outcome :=
  (requests (urlTools noAddresses id id) [] []
    [.register { redirectURIs := [uri] }, .authorize (approvalOf uri)]).exec world
      ([.run 0 { uuid := "c1" }] ++ List.replicate 2 (.run 1 { random := .ok "x" }))

theorem success_navigable_localhost : Navigable (utf8 "http://localhost/cb?code=x") := by
  have hharmless : ∀ r, .register r ∈ ([.register { redirectURIs := ["http://localhost/cb"] },
      .authorize (approvalOf "http://localhost/cb")] : List Request) →
      ∀ uri ∈ r.redirectURIs, Harmless noAddresses uri := by
    intro r hr uri huri u hu
    simp only [mem_cons, Request.register.injEq, reduceCtorEq, not_mem_nil, or_false] at hr
    rw [hr, mem_singleton] at huri
    rw [huri] at hu
    have hscheme : ((parse noAddresses (utf8 "http://localhost/cb")).map URL.scheme) =
        some (utf8 "http") := by decide +kernel
    rw [hu] at hscheme
    have heq : u.scheme = utf8 "http" := some.inj hscheme
    rw [heq]
    decide +kernel
  exact success_navigable noAddresses id id [] _ _ hharmless 1
    (.redirect "http://localhost/cb" [("code", "x")]) _
    (by decide +kernel : (approvalRun "http://localhost/cb").result 1 = _) (by decide +kernel)

/-- **The page runs script in the origin of the relay**: anyone may register `javascript:`, and
the user who approves the client is sent there. -/
theorem success_runs_script :
    ((approvalRun "javascript:alert(1)").result 1).bind (successURL noAddresses) =
        some (utf8 "javascript:alert(1)?code=x") ∧
      ¬ Navigable (utf8 "javascript:alert(1)?code=x") := by
  refine ⟨by decide +kernel, ?_⟩
  rintro ⟨scheme, hscheme, hsafe, -⟩
  have hscript : browserScheme (utf8 "javascript:alert(1)?code=x") = some (utf8 "javascript") := by
    decide +kernel
  rw [hscript] at hscheme
  exact hsafe (some.inj hscheme ▸ by simp [scriptSchemes])

end ArcRelay.Provider
