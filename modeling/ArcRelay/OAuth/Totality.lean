import ArcRelay.Lib.Table
import ArcRelay.OAuth.Rotation

/-!
# Tokens that are gone

After a refresh `GetAccessToken` reads the copy of the tokens once more and takes it to be there
(`internal/oauth/oauth.go`).  Whoever deletes the copy between the two, a re-registration or a
refresh that is refused, makes it dereference nil.  If nobody does, it never happens.

* `overtaken`: the copy was deleted after it had been written.
* `getAccessToken_total`, `getAccessToken_panics`: the theorem, and a run that panics.
-/

namespace ArcRelay.OAuth.Totality

open Interleave Prog List
open Rotation (expiredManager expiredConfig)

/-- A refresh, or someone who fills the cache, writes tokens. -/
def fills : Entry → Bool
  | .wrote _ false (.tokens (some _)) => true
  | _ => false

/-- The copy was deleted after it was written. -/
def overtaken : List Entry → Bool
  | [] => false
  | .wrote _ _ (.tokens none) :: log => log.any fills || overtaken log
  | _ :: log => overtaken log

/-- The copy was written, and is there unless it was deleted since. -/
structure Present (s : State) : Prop where
  written : s.log.any fills = true
  there : s.tokens ≠ none ∨ overtaken s.log = true

structure Later (s s' : State) : Prop where
  log : s.log <:+ s'.log
  present : Present s → Present s'

/-- A refresh that has succeeded has written the copy. -/
def Inv (s : State) : Prop := ∀ k, (k, .ok ()) ∈ s.outcomes → Present s

variable {s s' t : State} {e : Entry} {log log' : List Entry} {i : ℕ}

theorem any_fills_suffix (h : log.any fills = true) (hl : log <:+ log') :
    log'.any fills = true := by
  obtain ⟨e, he, hfills⟩ := any_eq_true.mp h
  exact any_eq_true.mpr ⟨e, hl.subset he, hfills⟩

theorem overtaken_suffix (h : overtaken log = true) (hl : log <:+ log') :
    overtaken log' = true := by
  obtain ⟨front, rfl⟩ := hl
  induction front with
  | nil => exact h
  | cons e front ih =>
    rw [cons_append]
    unfold overtaken
    split
    · contradiction
    · next heq => exact Bool.or_eq_true _ _ ▸ .inr ((cons.inj heq).2 ▸ ih)
    · next heq => exact (cons.inj heq).2 ▸ ih

theorem Later.refl (s : State) : Later s s := ⟨suffix_refl _, id⟩

theorem Later.trans (a b c : State) (h : Later a b) (h' : Later b c) : Later a c :=
  ⟨h.log.trans h'.log, h'.present ∘ h.present⟩

theorem Later.quiet (hlog : s.log <:+ s'.log) (htokens : s'.tokens = s.tokens) : Later s s' :=
  ⟨hlog, fun h => ⟨any_fills_suffix h.written hlog,
    h.there.imp (htokens ▸ id) (overtaken_suffix · hlog)⟩⟩

theorem Later.write (front : List Entry) (b : Bool) (ts : Option TokenSet)
    (hlog : s'.log = front ++ .wrote i b (.tokens ts) :: s.log) (htokens : s'.tokens = ts) :
    Later s s' := by
  have hfront : .wrote i b (.tokens ts) :: s.log <:+ s'.log := ⟨front, hlog.symm⟩
  have hsuffix := (suffix_cons _ _).trans hfront
  refine ⟨hsuffix, fun h => ⟨any_fills_suffix h.written hsuffix, ?_⟩⟩
  cases ts with
  | some ts => exact .inl (htokens ▸ nofun)
  | none => exact .inr (overtaken_suffix (by simp [overtaken, h.written]) hfront)

/-! ### Programs that only move on -/

def Step (s s' : State) : Prop := Later s s' ∧ s'.outcomes = s.outcomes

variable {α β : Type} {m : Manager}

theorem within_read (f : State → Env → β) : (act fun s e => (s, f s e) : Run β).Within Step :=
  within_act.mpr fun s _ => ⟨.refl s, rfl⟩

theorem within_edit (cfg : RemoteConfig) :
    (attempt Env.storeErr fun s _ => ({ s with
        config := cfg
        log := .returned i cfg none :: .wrote i true (.config s.config cfg) :: s.log }, ()) :
      Run _).Within Step :=
  within_attempt (fun s => ⟨.refl s, rfl⟩) fun _ _ => ⟨.quiet ⟨[_, _], rfl⟩ rfl, rfl⟩

theorem within_getConfig : getConfig.Within Step :=
  within_attempt (fun s => ⟨.refl s, rfl⟩) fun s _ => ⟨.refl s, rfl⟩

theorem within_updateConfig (b : Bool) (cfg : RemoteConfig) : (updateConfig i b cfg).Within Step :=
  within_act.mpr fun s e => by
    cases e.storeErr with
    | none | some _ => exact ⟨.quiet (suffix_cons _ _) rfl, rfl⟩

theorem within_setTokens (ts : Option TokenSet) : (setTokens i ts).Within Step :=
  within_act.mpr fun _ _ => ⟨.write [] false ts rfl rfl, rfl⟩

theorem within_settle (cfg : RemoteConfig) (ts : Option TokenSet) : (settle i cfg ts).Within Step :=
  within_act.mpr fun _ _ => ⟨.write [.returned i cfg (some ts)] true ts rfl rfl, rfl⟩

theorem within_tokenRequest (url : String) (data : List (String × String)) :
    (tokenRequest i url data).Within Step :=
  within_act.mpr fun _ _ => ⟨.quiet (suffix_cons _ _) rfl, rfl⟩

theorem within_takePending (state : String) : (takePending state).Within Step :=
  within_act.mpr fun s e => by
    cases s.pending.find? fun pa => pa.state = state with
    | none | some _ => exact ⟨.quiet (suffix_refl _) rfl, rfl⟩

theorem within_discover (urls : List String) : (discover urls).Within Step := by
  induction urls with
  | nil => exact within_pure _
  | cons url urls ih => ?_
  rw [discover]
  split
  · exact ih
  refine (within_read _).bind fun r => ?_
  split
  · split
    · exact ih
    · exact within_pure _
  · exact ih

theorem within_body {op : Op} (hop : ∀ o ∈ [Op.getAccessToken, .forceRefresh], op ≠ o) :
    (op.body m i).Within Step := by
  cases op with
  | getAccessToken | forceRefresh => exact absurd rfl (hop _ (by simp))
  | handleCallback _ _ | reRegister _ | edit _ | getTokenInfo =>
    simp only [Op.body, handleCallback, exchangeCode, reRegister, reRegisterIfNeeded,
      discoverIfNeeded, register, serverEdit, getTokenInfo]
    repeat' first
      | exact within_pure _
      | exact within_takePending _
      | exact within_getConfig
      | exact within_read _
      | exact within_discover _
      | exact within_tokenRequest _ _
      | exact within_updateConfig _ _
      | exact within_setTokens _
      | exact within_settle _ _
      | exact within_edit _
      | split
      | refine Within.bind ?_ fun _ => ?_

/-! ### Refreshes -/

abbrev Sound (Q : α → State → Prop) (p : Run α) (s : State) : Prop := p.Safe Inv Later Later Q s

theorem Inv.step (h : Inv s) (hs : Step s s') : Inv s' ∧ Later s s' :=
  ⟨fun k hk => hs.1.present (h k (hs.2 ▸ hk)), hs.1⟩

variable {Q : α → State → Prop}

theorem sound_bind {q : Run β} {k : β → Run α} (hq : q.Within Step)
    (hk : ∀ b t, Sound Q (k b) t) : Sound Q (q >>= k) s :=
  safe_bind Later.refl (hq.safe (fun _ _ hI hs => hI.step hs) s) fun b t _ _ => hk b t

def Saves (r : Except String Unit) (s : State) : Prop := r = .ok () → Present s

theorem sound_failed (err : String) : Sound Saves (pure (.error err)) s :=
  safe_pure fun _ _ => nofun

theorem finishRefresh_saves (cfg : RemoteConfig) (ts : TokenSet) (reply : Except String TokenSet) :
    Sound Saves (finishRefresh m i cfg ts reply) s := by
  cases reply with
  | error err =>
    rw [finishRefresh]
    split
    · exact sound_bind ((within_updateConfig _ _).bind fun _ => within_setTokens _)
        fun _ _ => sound_failed _
    · exact sound_failed _
  | ok newTS => ?_
  refine sound_bind (within_updateConfig _ _) fun r t => ?_
  cases r with
  | error err => exact sound_failed _
  | ok _ => ?_
  refine safe_act_bind.mpr fun t' _ hI e => ?_
  obtain ⟨hI', hlater⟩ := hI.step (within_act.mp (within_setTokens (i := i) (some _)) t' e)
  exact ⟨hI', hlater, safe_pure fun _ hR _ => hR.present ⟨rfl, .inl (Option.some_ne_none _)⟩⟩

theorem doRefreshToken_saves (ts : Option TokenSet) : Sound Saves (doRefreshToken m i ts) s := by
  cases ts with
  | none => exact sound_failed _
  | some ts => ?_
  rw [doRefreshToken]
  split
  · exact sound_failed _
  refine sound_bind within_getConfig fun r t => ?_
  cases r with
  | error err => exact sound_failed _
  | ok cfg => ?_
  refine sound_bind (within_tokenRequest _ _) fun r t => ?_
  cases r with
  | ok newTS => exact finishRefresh_saves _ _ _
  | error err => ?_
  dsimp only
  split
  · refine sound_bind ?_ fun r t => finishRefresh_saves _ _ _
    unfold rediscover
    repeat' first
      | exact within_pure _
      | exact within_read _
      | exact within_updateConfig _ _
      | exact within_tokenRequest _ _
      | split
      | refine Within.bind ?_ fun _ => ?_
  · exact finishRefresh_saves _ _ _

theorem refreshToken_saves : Sound Saves (refreshToken m i) s := by
  refine safe_act_bind.mpr fun t _ hI e => ?_
  cases t.refreshing with
  | some k =>
    refine ⟨hI, .refl t, safe_act.mpr fun t' _ hI' e => ?_⟩
    cases hk : t'.outcomes.lookup k with
    | none => exact ⟨hI', .refl t', fun _ _ _ => nofun⟩
    | some r =>
      refine ⟨hI', .refl t', fun t'' hR _ hok => hR.present (hI' k ?_)⟩
      dsimp only at hok
      split at hok
      · cases hok
      · exact hok ▸ Table.mem_of_lookup hk
  | none => ?_
  have hbegin : Later t { t with refreshing := some i } := .quiet (suffix_refl _) rfl
  refine ⟨fun k hk => hbegin.present (hI k hk), hbegin, ?_⟩
  refine safe_bind Later.refl (doRefreshToken_saves _) fun r t hI hr => ?_
  refine safe_act_bind.mpr fun t' hR hI' _ => ?_
  have hend : Later t' { t' with refreshing := none, outcomes := (i, r) :: t'.outcomes } :=
    .quiet (suffix_refl _) rfl
  refine ⟨fun k hk => hend.present ?_, hend, safe_pure fun _ hR' hok => ?_⟩
  · rcases mem_cons.mp hk with heq | hk
    · exact hR.present (hr (Prod.mk.inj heq).2.symm)
    · exact hI' k hk
  · exact hR'.present (hend.present (hR.present (hr hok)))

/-! ### Whole runs -/

/-- A token or an error is returned; a dereference of nil shows that the copy was deleted after it
was written. -/
def Excused : Outcome → State → Prop
  | .token _, _ | .failed _, _ => True
  | .panicked, s => overtaken s.log = true
  | .info _, _ | .done _, _ => False

theorem useTokens_excused (ts : TokenSet) : Sound Excused (useTokens m i ts) s := by
  refine sound_bind (within_read _) fun now t => ?_
  split
  · refine safe_bind Later.refl refreshToken_saves fun r t hI hr => ?_
    cases r with
    | error err => exact safe_pure fun _ _ => trivial
    | ok _ => ?_
    refine safe_act_bind.mpr fun t' hR hI' _ => ⟨hI', .refl t', ?_⟩
    have hpresent := hR.present (hr rfl)
    dsimp only
    split
    · next hnone =>
      refine safe_pure fun t'' hR' => ?_
      exact overtaken_suffix (hpresent.there.resolve_left fun h => h hnone) hR'.log
    · exact safe_pure fun _ _ => trivial
  · exact safe_pure fun _ _ => trivial

theorem getAccessToken_excused : Sound Excused (getAccessToken m i) s := by
  refine sound_bind (within_read _) fun r t => ?_
  split
  · exact useTokens_excused _
  refine sound_bind within_getConfig fun r t => ?_
  cases r with
  | error err => exact safe_pure fun _ _ => trivial
  | ok cfg => ?_
  dsimp only
  split
  · exact safe_pure fun _ _ => trivial
  · exact sound_bind (within_setTokens _) fun _ _ => useTokens_excused _

/-- What is shown of the operations: nothing but of `GetAccessToken`. -/
abbrev Total (op : Op) (r : Outcome) (s : State) : Prop := op = .getAccessToken → Excused r s

theorem run_total (op : Op) : Sound (Total op) (op.run m i) s := by
  refine sound_bind (within_act.mpr fun _ _ => ⟨.quiet (suffix_cons _ _) rfl, rfl⟩) fun _ t => ?_
  cases op with
  | getAccessToken => exact getAccessToken_excused.weaken fun _ _ _ h _ => h
  | forceRefresh =>
    exact safe_bind Later.refl refreshToken_saves fun _ _ _ _ => safe_pure fun _ _ => nofun
  | handleCallback _ _ | reRegister _ | edit _ | getTokenInfo =>
    refine ((within_body ?_).safe (fun _ _ hI hs => Inv.step hI hs) t).weaken fun _ _ _ _ => nofun
    simp

theorem world_later (ev : WorldEvent) (s : State) : Later s (world ev s) := by
  cases ev with
  | flowStarted _ | cleanup _ => exact .quiet (suffix_refl _) rfl

theorem world_inv (ev : WorldEvent) (s : State) (h : Inv s) : Inv (world ev s) := by
  cases ev with
  | flowStarted _ | cleanup _ => exact fun k hk => (world_later _ s).present (h k hk)

/-- **`GetAccessToken` is total unless its tokens are deleted**: in every interleaving of the
operations on a server, it returns a token or an error and dereferences no absent token set, unless
the copy was deleted after it had been written; and it returns if it is scheduled again and
again. -/
theorem getAccessToken_total (m : Manager) (config : RemoteConfig) (tokens : Option TokenSet)
    (pending : List PendingAuth) (ops : List Op) (i : ℕ) (hop : ops[i]? = some .getAccessToken) :
    let P := operations m config tokens pending ops
    (∀ sched r, (P.exec world sched).result i = some r →
      overtaken (P.exec world sched).state.log = false →
        (∃ token, r = .token token) ∨ ∃ err, r = .failed err) ∧
      ∀ sched : ℕ → Event WorldEvent Env, (∀ n, ∃ k ≥ n, ∃ e, sched k = .run i e) →
        ∃ n r, (P.exec world ((range n).map sched)).result i = some r := by
  intro P
  have hstart : P.AllSafe Inv (fun _ => Later) (fun _ => Later)
      fun i r s => ∀ op, ops[i]? = some op → Total op r s := by
    refine Pool.allSafe_mapIdx nofun fun i op hop => (run_total op).weaken ?_
    intro r s _ hr op' hop'
    obtain rfl : op = op' := Option.some.inj (hop.symm.trans hop')
    exact hr
  refine ⟨fun sched r hres hkept => ?_, fun sched hfair => Pool.exec_returns hfair ?_⟩
  · have hsafe := Pool.exec_safe (fun _ => Later.refl) (fun _ => Later.trans)
      (fun _ _ _ _ _ _ h => h) (fun ev s h => ⟨world_inv ev s h, fun _ => world_later ev s⟩)
      hstart sched
    have hexcused := hsafe.post (fun _ => Later.refl) hres _ hop rfl
    cases r with
    | token token => exact .inl ⟨token, rfl⟩
    | failed err => exact .inr ⟨err, rfl⟩
    | panicked => exact absurd hexcused (Bool.eq_false_iff.mp hkept)
    | info _ | done _ => exact hexcused.elim
  · have hlength : P.threads.length = ops.length := length_mapIdx
    exact hlength ▸ (List.getElem?_eq_some_iff.mp hop).1

/-- A registration deletes the copy after the expired tokens were read and before the new ones
are written. -/
theorem getAccessToken_total_registered :
    let ops : List Op := [.getAccessToken, .reRegister true]
    let refresh : Event WorldEvent Env := .run 0 { token := .ok "a2" "r2" "Bearer" 0 }
    let P := (operations expiredManager expiredConfig none [] ops).exec world
      (replicate 3 refresh ++
        replicate 6 (.run 1
          { discovery := .ok (some ⟨"", "", "https://idp.example/register"⟩)
            registration := .ok ⟨"c", "s"⟩ }) ++ replicate 12 refresh)
    P.result 1 = some (.done true) ∧ ∃ r, P.result 0 = some r ∧
      ((∃ token, r = .token token) ∨ ∃ err, r = .failed err) := by
  intro ops refresh P
  have hres : P.result 0 = some (.token "a2") := by decide +kernel
  have htotal := (getAccessToken_total expiredManager expiredConfig none [] ops 0 rfl).1
  exact ⟨by decide +kernel, _, hres, htotal _ _ hres (by decide +kernel)⟩

/-- The tokens are refreshed and saved; before they are read again, a registration that was
asked for deletes the copy. -/
theorem getAccessToken_panics :
    let ops : List Op := [.getAccessToken, .reRegister true]
    let P := (operations expiredManager expiredConfig none [] ops).exec world
      (replicate 10 (.run 0 { token := .ok "a2" "r2" "Bearer" 0 }) ++
        replicate 6 (.run 1
          { discovery := .ok (some ⟨"", "", "https://idp.example/register"⟩)
            registration := .ok ⟨"c", "s"⟩ }) ++ replicate 2 (.run 0 {}))
    P.result 1 = some (.done true) ∧ P.result 0 = some .panicked := by
  decide +kernel

end ArcRelay.OAuth.Totality
