import ArcRelay.Manager.Lifecycle

/-!
# A server that runs can be reached

The row of a server and the map of backends are two copies of one fact.  Operations of the
manager put them out of line and back into line under the mutex, so a row that says `running`
should have a backend whenever nobody is at work on it.

Four things can go wrong, and the log of a run shows them (`Entry.Sound`): an edit or an update
writes `running` when there is no backend, since the edit has read the status before the server
was stopped, or since the request says so; a status cannot be written; a backend is taken away
to be started anew, and the configuration that was read for that cannot be decoded; a process
begins with a row that says `running` and cannot start the server.  In a run without any of
these, a row that says `running` has a backend.

* `running_reachable`: a server that runs can be reached.
* `running_unreachable`: three runs after which it cannot.
-/

namespace ArcRelay.Lifecycle

open Locked Code List

def Entry.Sound : Entry → Prop
  | .wrote status registered => status = .running → registered = true
  | .lost status registered => status = .running → registered = true
  | .retried status srv => status = .running → srv.readable = true
  | .listed status srv => status = .running → srv.any (·.readable) = true

instance : DecidablePred Entry.Sound
  | .wrote status registered => inferInstanceAs (Decidable (status = .running → registered = true))
  | .lost status registered => inferInstanceAs (Decidable (status = .running → registered = true))
  | .retried status srv => inferInstanceAs (Decidable (status = .running → srv.readable = true))
  | .listed status srv =>
    inferInstanceAs (Decidable (status = .running → srv.any (·.readable) = true))

def Reachable (s : State) : Prop :=
  (∀ e ∈ s.log, e.Sound) → s.row.status = .running → s.backend.isSome = true

def SameBackend (s s' : State) : Prop := s'.backend = s.backend

theorem sameBackend_refl (s : State) : SameBackend s s := rfl

theorem sameBackend_trans (a b c : State) (h : SameBackend a b) (h' : SameBackend b c) :
    SameBackend a c := Eq.trans h' h

variable {s : State}

theorem reachable_of_status (h : s.row.status ≠ .running) : Reachable s :=
  fun _ hrun => absurd hrun h

theorem reachable_of_backend (h : s.backend.isSome = true) : Reachable s :=
  fun _ _ => h

theorem reachable_of_entry {e : Entry} (he : e ∈ s.log)
    (h : e.Sound → s.row.status = .running → s.backend.isSome = true) : Reachable s :=
  fun hlog hrun => h (hlog e he) hrun

/-! ### Single steps -/

variable {α β : Type} {Q : Standing → α → State → Prop} {m : Standing} {msg : String} {k : β → Op α}
  {status : ServerStatus}

abbrev Settle (Q : Standing → α → State → Prop) (p : Op α) (m : Standing) (s : State) : Prop :=
  Settles Reachable SameBackend Q p m s

theorem settles_quiet {f : State → Env → State × β} {k : β → Op α}
    (hf : ∀ s e, (f s e).1.row.status = s.row.status ∧ (f s e).1.backend = s.backend ∧
      (f s e).1.log = s.log)
    (hk : ∀ b s', Settle Q (k b) m s') : Settle Q (act f >>= k) m s := by
  refine settles_keep fun s' _ e => ?_
  obtain ⟨hstatus, hbackend, hlog⟩ := hf s' e
  refine ⟨fun _ => hbackend, fun hgood => ?_, hk _ _⟩
  rw [Reachable, hstatus, hbackend, hlog]
  exact hgood

theorem settles_updateStatus (h : status ≠ .running) {k : Unit → Op α}
    (hk : ∀ s', Settle Q (k ()) { m with owing := false } s') :
    Settle Q (updateStatus status msg >>= k) m s := by
  refine settles_pay fun s' _ e => ?_
  cases e.storeErr with
  | some err => exact ⟨fun _ => rfl, reachable_of_entry (mem_cons_self ..) id, hk _⟩
  | none => exact ⟨fun _ => rfl, reachable_of_status h, hk _⟩

theorem settles_updateHealth {health : HealthStatus} {k : Unit → Op α}
    (hk : ∀ s', Settle Q (k ()) m s') : Settle Q (updateHealth health msg >>= k) m s := by
  refine settles_quiet (fun s e => ?_) fun _ => hk
  cases e.storeErr with
  | some | none => exact ⟨rfl, rfl, rfl⟩

theorem settles_updateConfig {config : Config} {k : Unit → Op α}
    (hk : ∀ s', Settle Q (k ()) m s') : Settle Q (updateConfig config >>= k) m s := by
  refine settles_quiet (fun s e => ?_) fun _ => hk
  cases e.storeErr with
  | some | none => exact ⟨rfl, rfl, rfl⟩

theorem settles_get {k : Except String Server → Op α} (hk : ∀ r s', Settle Q (k r) m s') :
    Settle Q (get >>= k) m s := by
  refine settles_quiet (fun s e => ?_) hk
  cases e.storeErr with
  | some | none => exact ⟨rfl, rfl, rfl⟩

theorem settles_onMonitor {f : HealthMonitor → ℕ → HealthMonitor × β}
    (hk : ∀ b s', Settle Q (k b) m s') : Settle Q (onMonitor f >>= k) m s :=
  settles_quiet (fun _ _ => ⟨rfl, rfl, rfl⟩) hk

theorem settles_outside {f : Env → β} (hk : ∀ b s', Settle Q (k b) m s') :
    Settle Q (observe f >>= k) m s :=
  settles_quiet (fun _ _ => ⟨rfl, rfl, rfl⟩) hk

theorem settles_update {u : Update} {k : Except String Unit → Op α}
    (hk : ∀ r s', Settle Q (k r) m s') : Settle Q (update u >>= k) m s := by
  refine settles_keep fun s' _ e => ?_
  split
  · exact ⟨fun _ => rfl, id, hk _ _⟩
  · exact ⟨fun _ => rfl, fun _ => reachable_of_entry (mem_cons_self ..) id, hk _ _⟩
  · exact ⟨fun _ => rfl, id, hk _ _⟩

/-! ### Starting -/

def AtEnd {α : Type} (m : Standing) (_ : α) (_ : State) : Prop := m = ⟨true, false⟩

def Ends {α : Type} (p : Op α) : Prop := ∀ s, Settle AtEnd p ⟨true, false⟩ s

theorem ends_pure (a : α) : Ends (pure a : Op α) :=
  fun _ => settles_pure fun _ _ => rfl

theorem settles_connect (backend : Backend) (containerID : Option String) (owing : Bool)
    (s : State) : Settle AtEnd (connect backend containerID) ⟨true, owing⟩ s := by
  refine settles_pay fun s' _ _ => ⟨nofun, reachable_of_backend rfl, ?_⟩
  refine settles_pay fun t ht e => ?_
  have hbackend : t.backend.isSome = true := by
    rw [show t.backend = some backend from ht rfl]
    rfl
  cases e.storeErr with
  | some | none => exact ⟨nofun, reachable_of_backend hbackend, ends_pure _ _⟩

theorem ends_orMark {note text : String} {k : String → Op (Except String Unit)}
    (hk : ∀ reply, Ends (k reply)) : Ends (orMark note text k) := by
  refine fun s => settles_outside fun reply s' => ?_
  cases reply with
  | ok reply => exact hk reply s'
  | error err => exact settles_updateStatus (by decide) fun t => ends_pure _ t

theorem ends_persistImage (cfg : StdioConfig) (tag : String) : Ends (persistImage cfg tag) :=
  fun _ => settles_updateConfig fun t => ends_pure _ t

theorem ends_buildFromTemplate {k : Op (Except String Unit)} (hk : Ends k) :
    Ends (buildFromTemplate k) :=
  ends_orMark fun _ => ends_orMark fun _ => hk

theorem ends_buildFromGitRepo (cfg : StdioConfig) (tag : String) :
    Ends (buildFromGitRepo cfg tag) := by
  refine ends_orMark fun _ s => settles_outside fun reply s' => ?_
  cases reply with
  | error err => exact ends_pure _ s'
  | ok _ => ?_
  refine ends_orMark (fun _ t => settles_outside fun found t' => ?_) s'
  split
  · exact ends_orMark (fun _ => ends_persistImage cfg tag) t'
  · exact ends_buildFromTemplate (ends_persistImage cfg tag) t'

theorem ends_buildIfConfigured (cfg : StdioConfig) : Ends (buildIfConfigured cfg) := by
  unfold buildIfConfigured
  split
  · exact ends_pure _
  refine fun s => settles_outside fun found s' => ?_
  split
  · exact ends_pure _ s'
  split
  · exact ends_buildFromGitRepo _ _ s'
  · exact ends_buildFromTemplate (ends_persistImage _ _) s'

variable {srv : Server} {owing : Bool}

theorem settles_undecoded (h : owing = false ∨ (none : Option β).isSome = true)
    (r : Except String Unit) (s : State) : Settle AtEnd (pure r : Op _) ⟨true, owing⟩ s := by
  rw [h.resolve_right nofun]
  exact ends_pure r s

theorem settles_startStdio (h : owing = false ∨ srv.config.stdio.isSome = true) (s : State) :
    Settle AtEnd (startStdio srv) ⟨true, owing⟩ s := by
  unfold startStdio
  split
  · next hcfg =>
    rw [hcfg] at h
    exact settles_undecoded h _ s
  refine settles_updateStatus (by decide) fun s' => ?_
  refine settles_bind sameBackend_refl (ends_buildIfConfigured _ s') fun m r t hm => ?_
  obtain rfl : m = ⟨true, false⟩ := hm
  cases r with
  | error err => exact ends_pure _ t
  | ok _ =>
    exact ends_orMark (fun _ => ends_orMark fun _ => ends_orMark fun _ =>
      settles_connect _ _ false) t

theorem settles_startHTTP (h : owing = false ∨ srv.config.http.isSome = true) (s : State) :
    Settle AtEnd (startHTTP srv) ⟨true, owing⟩ s := by
  unfold startHTTP
  split
  · next hcfg =>
    rw [hcfg] at h
    exact settles_undecoded h _ s
  split
  · exact settles_connect _ _ owing s
  refine settles_updateStatus (by decide) fun s' => ?_
  exact ends_orMark (fun _ => ends_orMark fun _ => ends_orMark fun _ =>
    settles_connect _ _ false) s'

theorem settles_startRemote (h : owing = false ∨ srv.config.remote.isSome = true) (s : State) :
    Settle AtEnd (startRemote srv) ⟨true, owing⟩ s := by
  unfold startRemote
  split
  · next hcfg =>
    rw [hcfg] at h
    exact settles_undecoded h _ s
  split
  · refine settles_outside fun found s' => ?_
    split
    · exact settles_connect _ _ owing s'
    · exact settles_updateStatus (by decide) fun t => ends_pure _ t
  · exact settles_connect _ _ owing s

theorem settles_startByType (h : owing = false ∨ srv.readable = true) (s : State) :
    Settle AtEnd (startByType srv) ⟨true, owing⟩ s := by
  unfold Server.readable at h
  unfold startByType
  cases htype : srv.serverType with
  | stdio =>
    rw [htype] at h
    exact settles_startStdio h s
  | http =>
    rw [htype] at h
    exact settles_startHTTP h s
  | remote =>
    rw [htype] at h
    exact settles_startRemote h s

/-- **A start pays what is owed if the configuration decodes**: the server is there already, or
its status is written, or it is put there. -/
theorem settles_startServer (h : owing = false ∨ srv.readable = true) (s : State) :
    Settle System.Done (startServer srv) ⟨false, owing⟩ s := by
  refine settles_locked (P := AtEnd) sameBackend_refl (fun s' => ?_) ?_
  · refine settles_act_bind.mpr fun t _ e => ⟨nofun, ?_⟩
    cases hbackend : t.backend.isSome with
    | true => exact ⟨false, fun _ _ => reachable_of_backend hbackend, ends_pure _ t⟩
    | false => exact ⟨owing, System.pays_self _ _, settles_startByType h t⟩
  · rintro m a t rfl
    exact ⟨rfl, fun _ => rfl⟩

/-! ### The other operations -/

def Settling {α : Type} (p : Op α) : Prop := ∀ s, Settle System.Done p ⟨false, false⟩ s

theorem settling_pure (a : α) : Settling (pure a : Op α) := fun _ => settles_pure fun _ _ => rfl

theorem settling_bind {p : Op β} {f : β → Op α} (hp : Settling p) (hf : ∀ b, Settling (f b)) :
    Settling (p >>= f) := by
  refine fun s => settles_bind sameBackend_refl (hp s) fun m b s' hm => ?_
  obtain rfl : m = ⟨false, false⟩ := hm
  exact hf b s'

theorem settling_startServer (srv : Server) : Settling (startServer srv) :=
  settles_startServer (.inl rfl)

/-- **A stop pays for the backend it takes away.** -/
theorem settling_stopServer : Settling stopServer := by
  refine fun s => settles_locked sameBackend_refl (fun s' => ?_) fun _ _ _ h => h
  refine settles_borrow fun t _ _ => ⟨nofun, ?_⟩
  refine settles_quiet (fun _ _ => ⟨rfl, rfl, rfl⟩) fun _ _ => ?_
  refine settles_updateStatus (by decide) fun _ => ?_
  exact settles_act.mpr (settles_updateHealth fun _ => settles_pure fun _ _ => ⟨rfl, fun _ => rfl⟩)

/-- **A retry owes a backend only if its start will pay.** -/
theorem settling_retryServer (srv : Server) : Settling (retryServer srv) := by
  refine fun s => settles_bind (P := fun m _ _ => m.held = false ∧
    (m.owing = false ∨ srv.readable = true)) sameBackend_refl ?_ ?_
  · refine settles_locked sameBackend_refl (fun s' => settles_act.mpr ?_) fun _ _ _ h => h
    cases hread : srv.readable with
    | true =>
      exact settles_borrow fun t _ _ =>
        ⟨nofun, settles_pure fun _ _ => ⟨rfl, fun _ => ⟨rfl, .inr rfl⟩⟩⟩
    | false =>
      refine settles_pay fun t _ _ =>
        ⟨nofun, ?_, settles_pure fun _ _ => ⟨rfl, fun _ => ⟨rfl, .inl rfl⟩⟩⟩
      refine reachable_of_entry (mem_cons_self ..) fun he hrun => ?_
      exact absurd (he hrun) (by rw [hread]; exact Bool.false_ne_true)
  · rintro ⟨held, owing⟩ - s' ⟨rfl, howing⟩
    exact settles_startServer howing s'

theorem settling_get {k : Except String Server → Op α} (herr : ∀ err, Settling (k (.error err)))
    (hok : ∀ srv, Settling (k (.ok srv))) : Settling (get >>= k) := by
  refine fun s => settles_get fun r s' => ?_
  cases r with
  | error err => exact herr err s'
  | ok srv => exact hok srv s'

theorem settling_recreateContainer : Settling recreateContainer :=
  settling_bind settling_stopServer fun _ =>
    settling_get (fun _ => settling_pure _) settling_startServer

theorem settling_getBackend : Settling getBackend := by
  refine fun s => settles_locked sameBackend_refl (fun s' => settles_act.mpr ?_) fun _ _ _ h => h
  exact settles_quiet (fun _ _ => ⟨rfl, rfl, rfl⟩) fun _ _ =>
    settles_pure fun _ _ => ⟨rfl, fun _ => rfl⟩

theorem settling_onMonitor (f : HealthMonitor → ℕ → HealthMonitor × α) : Settling (onMonitor f) :=
  fun _ => settles_act.mpr (settles_onMonitor fun _ => settling_pure _)

theorem settling_updateStatus (h : status ≠ .running) (msg : String) :
    Settling (updateStatus status msg) :=
  fun _ => settles_act.mpr (settles_updateStatus h (settling_pure _))

theorem settling_updateHealth (health : HealthStatus) (msg : String) :
    Settling (updateHealth health msg) :=
  fun _ => settles_act.mpr (settles_updateHealth (settling_pure _))

theorem settling_checkRunning : Settling checkRunning := by
  refine settling_bind settling_getBackend fun backend => ?_
  cases backend with
  | none =>
    refine settling_bind (settling_updateStatus (by decide) _) fun _ => ?_
    refine settling_bind (settling_updateHealth _ _) fun _ => ?_
    exact settling_bind (settling_onMonitor _) fun _ => settling_pure _
  | some _ => ?_
  refine fun s => settles_outside fun reply s' => ?_
  cases reply with
  | error err =>
    refine settling_bind (settling_onMonitor _) (fun count => ?_) s'
    refine settling_bind (settling_updateHealth _ _) fun _ => ?_
    split
    · exact settling_bind (settling_updateStatus (by decide) _) fun _ => settling_pure _
    · exact settling_pure _
  | ok _ =>
    refine settling_bind (settling_onMonitor _) (fun _ => ?_) s'
    exact settling_bind (settling_updateHealth _ _) fun _ => settling_pure _

theorem settling_checkHealth : Settling checkHealth := by
  refine settling_bind settling_getBackend fun backend => ?_
  cases backend with
  | none => exact settling_pure _
  | some _ => ?_
  refine fun s => settles_outside fun reply s' => ?_
  cases reply with
  | error _ | ok _ => exact settling_bind (settling_updateHealth _ _) (fun _ => settling_pure _) s'

theorem settling_tryRecover (srv : Server) : Settling (tryRecover srv) := by
  refine settling_bind (settling_onMonitor _) fun due => ?_
  split
  · split
    · refine settling_bind (settling_retryServer srv) fun r => ?_
      cases r with
      | error err => exact settling_pure _
      | ok _ => exact settling_bind (settling_onMonitor _) fun _ => settling_pure _
    refine settling_bind settling_recreateContainer fun r => ?_
    cases r with
    | error err => exact settling_bind (settling_onMonitor _) fun _ => settling_pure _
    | ok _ =>
      refine settling_bind (settling_onMonitor _) fun _ => ?_
      exact settling_bind (settling_onMonitor _) fun _ => settling_pure _
  · exact settling_pure _

theorem settling_checkAll : Settling checkAll := by
  refine settling_get (fun _ => settling_pure _) fun srv => ?_
  dsimp only
  cases srv.status with
  | running => exact settling_checkRunning
  | error => exact settling_tryRecover srv
  | starting => exact settling_pure _
  | stopped => ?_
  dsimp only
  split
  · exact settling_bind (settling_updateHealth _ _) fun _ => settling_pure _
  · exact settling_pure _

theorem settling_update (u : Update) : Settling (update u) :=
  fun _ => settles_act.mpr (settles_update fun r => settling_pure r)

theorem settling_handleServerEdit (form : Except String Form) :
    Settling (handleServerEdit form) := by
  refine settling_get (fun _ => settling_pure _) fun srv => ?_
  cases form with
  | error err => exact settling_pure _
  | ok form => ?_
  dsimp only
  cases validateSlug form.name with
  | some err => exact settling_pure _
  | none => exact settling_update _

theorem settling_updateServer (body : Except String Update) : Settling (updateServer body) := by
  refine settling_get (fun _ => settling_pure _) fun _ => ?_
  cases body with
  | error err => exact settling_pure _
  | ok u => ?_
  dsimp only
  cases validateSlug u.name with
  | some err => exact settling_pure _
  | none => exact settling_update u

theorem settling_code (c : Call) : Settling c.code := by
  cases c with
  | start srv => exact settling_startServer srv
  | stop => exact settling_bind settling_stopServer fun _ => settling_pure _
  | retry srv => exact settling_retryServer srv
  | recreate => exact settling_recreateContainer
  | check => exact settling_checkAll
  | health => exact settling_checkHealth
  | edit form => exact settling_handleServerEdit form
  | update body => exact settling_updateServer body

/-! ### Runs -/

theorem settles_autoStart (s : State) : Settle System.Done autoStart ⟨false, true⟩ s := by
  refine settles_act_bind.mpr fun s' _ e => ⟨fun _ => rfl, ?_⟩
  have hlisted : ∀ listed : Option Server, listed.any (·.readable) = false →
      Reachable { s' with log := .listed s'.row.status listed :: s'.log } := by
    intro listed hread
    refine reachable_of_entry (mem_cons_self ..) fun he hrun => ?_
    exact absurd (he hrun) (by rw [hread]; exact Bool.false_ne_true)
  cases e.storeErr.isSome with
  | true => exact ⟨false, fun _ _ => hlisted none rfl, settling_pure _ _⟩
  | false => ?_
  cases hread : s'.row.readable with
  | true => exact ⟨true, nofun, settles_startServer (.inr hread) _⟩
  | false => exact ⟨false, fun _ _ => hlisted (some s'.row) hread, settling_startServer _ _⟩

theorem settled_boot (row : Server) : System.Settled Reachable SameBackend (boot row) := by
  refine ⟨fun i => i == 0, ?_, ?_, .inr ⟨0, rfl⟩⟩
  · intro i p hi
    cases i with
    | zero =>
      cases hi
      exact settles_autoStart _
    | succ i => cases hi
  · intro i hi
    cases i with
    | zero => cases hi
    | succ i => exact ⟨rfl, nofun⟩

/-- **A server that runs can be reached.**  The process begins with any row; starts, stops,
retries, recreations, health checks, edits and updates come at any time and interleave in any
way.  If none of the four has happened and nobody is at work, a row that says `running` has a
backend. -/
theorem running_reachable (row : Server) (events : List (Event Call Env))
    (hsound : ∀ e ∈ (run row events).state.log, e.Sound) (hidle : (run row events).idle = true)
    (hrun : (run row events).state.row.status = .running) :
    (run row events).state.backend.isSome = true :=
  System.good_of_idle sameBackend_refl
    (System.settled_exec sameBackend_refl sameBackend_trans settling_code (settled_boot row)
      events) hidle hsound hrun

def external (status : ServerStatus) : Server where
  name := "files"
  serverType := .http
  config := ⟨some {}, some { url := "http://files" }, some ⟨"http://files", {}⟩⟩
  status := status

def steps (i n : ℕ) : List (Event Call Env) := replicate n (.run i {})

theorem running_reachable_external : (run (external .running) (steps 0 6)).state.backend.isSome =
    true :=
  running_reachable (external .running) (steps 0 6) (by decide +kernel) (by decide +kernel)
    (by decide +kernel)

/-- A remote server with a configuration that does not decode, such as an object whose `url` is
a number. -/
def undecodable (status : ServerStatus) : Server where
  name := "files"
  serverType := .remote
  config := ⟨some {}, none, none⟩
  status := status

def mended : Update where
  name := "files"
  serverType := some .remote
  config := marshalRemote ⟨"http://files", {}⟩
  status := some .stopped

def declaredRunning : Update where
  name := "files"
  serverType := some .http
  config := (external .stopped).config
  status := some .running

/-- **Three runs that end with a row that says `running` and no backend**: a stop and then an
update that says `running`; an edit that has read the status before a stop and writes it back
behind it; and a health check that has read an undecodable configuration, and retries with it
after the configuration was mended and the server was started. -/
theorem running_unreachable :
    let unreachable (S : System State Env (Except String Unit)) : Prop :=
      S.idle = true ∧ S.state.row.status = .running ∧ S.state.backend = none
    unreachable (run (external .stopped)
      (steps 0 6 ++ .call .stop :: steps 1 6 ++
        .call (.update (.ok declaredRunning)) :: steps 2 2)) ∧
    unreachable (run (external .stopped)
      (steps 0 6 ++ .call (.edit (.ok ⟨"files", .http, (external .stopped).config⟩)) ::
        steps 1 1 ++ .call .stop :: steps 2 6 ++ steps 1 1)) ∧
    unreachable (run (undecodable .error)
      (steps 0 4 ++ .call .check :: steps 1 1 ++ .call (.update (.ok mended)) :: steps 2 2 ++
        .call (.start { undecodable .stopped with config := mended.config }) :: steps 3 5 ++
        steps 1 7)) := by
  decide +kernel

end ArcRelay.Lifecycle
