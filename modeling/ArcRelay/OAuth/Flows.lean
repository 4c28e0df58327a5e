import ArcRelay.OAuth.Manager
import ArcRelay.Provider.Redirects

/-!
# Pending authorizations

`StartAuthFlow` puts a flow among the pending ones, of which there are at most a hundred, and
only then looks at the URL that it sends the user to.  If that is no `http` URL the start fails,
and its flow stays until the cleanup.  `pending_real` has the starts for which this cannot
happen; `pending_exhausted` is a hundred starts that fail and keep out the next one.
-/

namespace ArcRelay.OAuth.Flows

open Json Url List

structure Flow extends PendingAuth where
  serverID : String

structure Draw where
  verifier : Except String String
  state : Except String String
  now : ℤ := 0

/-- The manager's URL, and functions of the libraries. -/
structure Relay where
  baseURL : String
  addrs : Addresses
  /-- `%q` of a text. -/
  quoted : String → String
  computeCodeChallenge : String → String

inductive Step where
  | start (serverID : String) (auth : RemoteAuth) (d : Draw)
  /-- `HandleCallback`, as far as it changes the pending flows. -/
  | callback (state : String)
  /-- One round of `cleanupPendingLoop`. -/
  | cleanup (now : ℤ)

def maxPendingFlows : ℕ := 100

namespace Relay

variable (r : Relay)

/-- An absolute `http` or `https` URL with a host. -/
def wellFormed (authURL : String) : Bool :=
  (parse r.addrs (utf8 authURL)).any fun u =>
    (u.scheme = utf8 "http" || u.scheme = utf8 "https") && u.host ≠ []

def params (auth : RemoteAuth) (verifier state : String) : Values :=
  ([("response_type", "code"), ("client_id", auth.clientID),
      ("redirect_uri", r.baseURL ++ "/oauth/callback"), ("state", state),
      ("code_challenge", r.computeCodeChallenge verifier), ("code_challenge_method", "S256")] ++
    if auth.scopes = "" then [] else [("scope", auth.scopes)]).map fun p => (utf8 p.1, [utf8 p.2])

def startAuthFlow (pending : List Flow) (serverID : String) (auth : RemoteAuth) (d : Draw) :
    List Flow × Except String Bytes :=
  match d.verifier, d.state with
  | .error err, _ => (pending, .error ("generating code verifier: " ++ err))
  | .ok _, .error err => (pending, .error ("generating state: " ++ err))
  | .ok verifier, .ok state =>
    if maxPendingFlows ≤ pending.length then
      (pending, .error "too many pending OAuth flows, try again later")
    else
      (⟨⟨state, verifier, d.now⟩, serverID⟩ :: pending.filter (·.state ≠ state),
        if r.wellFormed auth.authURL then
          .ok (utf8 auth.authURL ++ 0x3f :: (r.params auth verifier state).encode)
        else .error ("invalid OAuth authorization URL " ++ r.quoted auth.authURL))

def apply (pending : List Flow) : Step → List Flow
  | .start serverID auth d => (r.startAuthFlow pending serverID auth d).1
  | .callback state => pending.filter (·.state ≠ state)
  | .cleanup now => pending.filter fun pa => ¬ pendingAuthExpiry < now - pa.createdAt

def run (steps : List Step) : List Flow := steps.foldl r.apply []

def Carries (url : Bytes) (state : String) : Prop :=
  ∃ endpoint, ∃ query : Values, url = endpoint ++ 0x3f :: query.encode ∧
    (utf8 "state", [utf8 state]) ∈ query

def Real (steps : List Step) (flow : Flow) : Prop :=
  ∃ before auth d after url, steps = before ++ .start flow.serverID auth d :: after ∧
    (r.startAuthFlow (r.run before) flow.serverID auth d).2 = .ok url ∧ Carries url flow.state

variable {r}

theorem startAuthFlow_cases {auth : RemoteAuth} (hauth : r.wellFormed auth.authURL = true)
    (pending : List Flow) (serverID : String) (d : Draw) :
    ((r.startAuthFlow pending serverID auth d).1 = pending ∧
        ∃ err, (r.startAuthFlow pending serverID auth d).2 = .error err) ∨
      ∃ flow url, r.startAuthFlow pending serverID auth d =
          (flow :: pending.filter (·.state ≠ flow.state), .ok url) ∧
        flow.serverID = serverID ∧ Carries url flow.state := by
  unfold startAuthFlow
  split
  · exact .inl ⟨rfl, _, rfl⟩
  · exact .inl ⟨rfl, _, rfl⟩
  split
  · exact .inl ⟨rfl, _, rfl⟩
  exact .inr ⟨_, _, rfl, rfl, _, _, rfl, by simp [params]⟩

theorem Real.append {steps : List Step} {flow : Flow} (h : r.Real steps flow) (step : Step) :
    r.Real (steps ++ [step]) flow := by
  obtain ⟨before, auth, d, after, url, rfl, hurl, hcarries⟩ := h
  exact ⟨before, auth, d, after ++ [step], url, by simp, hurl, hcarries⟩

/-- **Pending flows are real where endpoints are well formed**: each was put there by a start
that has returned a URL with its state, and a start that fails changes nothing. -/
theorem pending_real (steps : List Step)
    (hauth : ∀ serverID auth d, .start serverID auth d ∈ steps →
      r.wellFormed auth.authURL = true) :
    (∀ flow ∈ r.run steps, r.Real steps flow) ∧
      ∀ before serverID auth d after err, steps = before ++ .start serverID auth d :: after →
        (r.startAuthFlow (r.run before) serverID auth d).2 = .error err →
          (r.startAuthFlow (r.run before) serverID auth d).1 = r.run before := by
  refine ⟨?_, fun before serverID auth d after err hsteps herr => ?_⟩
  · induction steps using reverseRecOn with
    | nil => exact nofun
    | append_singleton steps step ih => ?_
    intro flow hflow
    have ih := ih fun serverID auth d hmem => hauth serverID auth d (mem_append_left _ hmem)
    rw [run, foldl_concat] at hflow
    cases step with
    | callback _ | cleanup _ => exact (ih flow (mem_of_mem_filter hflow)).append _
    | start serverID auth d => ?_
    have hwell := hauth serverID auth d (by simp)
    rw [apply] at hflow
    rcases startAuthFlow_cases hwell (r.run steps) serverID d with
      ⟨hsame, -⟩ | ⟨new, url, hput, rfl, hcarries⟩
    · exact (ih flow (hsame ▸ hflow)).append _
    rcases mem_cons.mp (congrArg Prod.fst hput ▸ hflow) with rfl | hold
    · exact ⟨steps, auth, d, [], url, rfl, congrArg Prod.snd hput, hcarries⟩
    · exact (ih flow (mem_of_mem_filter hold)).append _
  have hwell := hauth serverID auth d (by simp [hsteps])
  rcases startAuthFlow_cases hwell (r.run before) serverID d with ⟨hsame, -⟩ | ⟨_, _, hput, -⟩
  · exact hsame
  · rw [hput] at herr
    cases herr

end Relay

def demoRelay : Relay where
  baseURL := ""
  addrs := Provider.noAddresses
  -- the URLs below have nothing to escape
  quoted s := "\"" ++ s ++ "\""
  computeCodeChallenge verifier := verifier

def starts (authURL : String) (n : ℕ) : List Step :=
  (range n).map fun i => .start "srv" { authURL } ⟨.ok "v", .ok (toString i), 0⟩

theorem pending_real_two :
    (demoRelay.run (starts "https://idp.example/authorize" 2)).length = 2 ∧
      ∀ flow ∈ demoRelay.run (starts "https://idp.example/authorize" 2),
        demoRelay.Real (starts "https://idp.example/authorize" 2) flow := by
  refine ⟨by decide +kernel, (Relay.pending_real _ fun serverID auth d h => ?_).1⟩
  obtain ⟨_, -, heq⟩ := mem_map.mp h
  cases heq
  decide +kernel

/-- A start with an endpoint that has no host fails and leaves a flow; after a hundred of them
nobody can start another. -/
theorem pending_exhausted :
    (demoRelay.startAuthFlow [] "srv" { authURL := "/authorize" } ⟨.ok "v", .ok "0", 0⟩).2 =
        .error "invalid OAuth authorization URL \"/authorize\"" ∧
      (demoRelay.run (starts "/authorize" 1)).length = 1 ∧
      (demoRelay.startAuthFlow (demoRelay.run (starts "/authorize" 100)) "srv"
        { authURL := "https://idp.example/authorize" } ⟨.ok "v", .ok "s", 0⟩).2 =
          .error "too many pending OAuth flows, try again later" := by
  decide +kernel

end ArcRelay.OAuth.Flows
