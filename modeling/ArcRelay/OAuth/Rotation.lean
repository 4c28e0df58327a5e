import ArcRelay.Lib.History
import ArcRelay.OAuth.Manager

/-!
# Refresh tokens are spent once

Many providers take a refresh token once and hand out another with their answer, so a
token that was accepted must not be submitted again.  The manager has one refresh in
flight at a time.  But the cache is filled from the row without regard to refreshes: an
operation that has read the row before a refresh and fills the cache after it puts back
the token that was just spent, and the next refresh submits it.

`refresh_token_once` says that this, and an acceptance the relay never hears of, are the
only ways.  `refresh_token_twice` is a run in which the cache is filled too late.

* `Orderly`: the condition on a run.
* `refresh_token_once`, `refresh_token_twice`: the theorem, and a run without it.
-/

namespace ArcRelay.OAuth.Rotation

open Interleave Prog List Option

/-! ### What should hold -/

def submitted (data : List (String × String)) : Option String := data.lookup "refresh_token"

def issues : Except String TokenSet → String → Bool
  | .ok ts, r => ts.refreshToken = r
  | .error _, _ => false

/-- Whether the endpoint has accepted a refresh token and put another in its place. -/
def rotates (unheard : Bool) : Except String TokenSet → String → Bool
  | .ok ts, r => ts.refreshToken ≠ "" && ts.refreshToken ≠ r
  | .error _, _ => unheard

/-- The refresh token was accepted and rotated, and has not been handed out again. -/
def spent : List Entry → String → Bool
  | [], _ => false
  | .requested _ _ data reply unheard :: log, r =>
    !issues reply r && (spent log r || (submitted data == some r && rotates unheard reply r))
  | _ :: log, r => spent log r

def NeverResubmitted : List Entry → Prop
  | [] => True
  | .requested _ _ data _ _ :: log =>
    (∀ r, submitted data = some r → spent log r = false) ∧ NeverResubmitted log
  | _ :: log => NeverResubmitted log

/-- The operation has made a request, and its refresh is not over. -/
def InFlight (s : State) (i : ℕ) : Prop :=
  (∃ url data reply unheard, .requested i url data reply unheard ∈ s.log) ∧ ∀ r, (i, r) ∉ s.outcomes

structure SpentOnce (s : State) : Prop where
  one : ∀ i j, InFlight s i → InFlight s j → i = j
  once : NeverResubmitted s.log

/-! ### The condition -/

def rowAfter (config : RemoteConfig) : List Entry → RemoteConfig
  | [] => config
  | .wrote _ _ (.config _ after) :: _ => after
  | _ :: log => rowAfter config log

def Saved (log : List Entry) : Prop := ∀ i, .unsaved i ∉ log

/-- The condition on a run: tokens that are put into the cache have the refresh token that
is in the row, and the relay hears of every acceptance. -/
def Orderly (config : RemoteConfig) : List Entry → Prop
  | [] => True
  | .wrote _ _ (.tokens (some ts)) :: log =>
    ts.refreshToken = (rowAfter config log).auth.refreshToken ∧ Orderly config log
  | .requested _ _ _ reply unheard :: log =>
    (unheard = true → ∃ ts, reply = .ok ts) ∧ Orderly config log
  | _ :: log => Orderly config log

def Calm (config : RemoteConfig) (log : List Entry) : Prop := Saved log ∧ Orderly config log

variable {config : RemoteConfig} {log : List Entry} {e : Entry} {s : State}

theorem Orderly.tail (h : Orderly config (e :: log)) : Orderly config log := by
  cases e with
  | started _ | returned _ _ _ | unsaved _ => exact h
  | requested i url data reply unheard => exact h.2
  | wrote i settles w => ?_
  cases w with
  | config before after => exact h
  | tokens ts => ?_
  cases ts with
  | none => exact h
  | some ts => exact h.2

theorem Calm.tail (h : Calm config (e :: log)) : Calm config log :=
  ⟨fun i hi => h.1 i (mem_cons_of_mem _ hi), h.2.tail⟩

theorem Calm.suffix {log' : List Entry} (h : Calm config log') (hl : log <:+ log') :
    Calm config log :=
  History.suffix_of_tail (fun _ _ => Calm.tail) h hl

theorem not_calm_unsaved {i : ℕ} : ¬ Calm config (.unsaved i :: log) := fun h => h.1 i mem_cons_self

/-! ### What a request does to the tokens -/

variable {i : ℕ} {url err : String} {data : List (String × String)} {unheard : Bool} {r : String}
  {reply : Except String TokenSet}

theorem spent_orElse {ts : TokenSet} (hlog : spent log r = false) :
    spent (.requested i url data (.ok ts) unheard :: log) (orElse r ts.refreshToken) = false := by
  by_cases hts : ts.refreshToken = ""
  · rw [orElse, if_pos hts, spent, hlog, rotates, hts]
    simp
  · rw [orElse, if_neg hts, spent, issues]
    simp

theorem spent_refused (hunheard : unheard = false) :
    spent (.requested i url data (.error err) unheard :: log) r = spent log r := by
  rw [spent, issues, rotates, hunheard]
  simp

theorem spent_requested (h : spent (.requested i url data reply unheard :: log) r = true) :
    spent log r = true ∨ submitted data = some r := by
  rw [spent, Bool.and_eq_true, Bool.or_eq_true, Bool.and_eq_true, beq_iff_eq] at h
  exact h.2.imp_right And.left

theorem submitted_refreshData (auth : RemoteAuth) (ts : TokenSet) :
    submitted (refreshData auth ts) = some ts.refreshToken := rfl

/-! ### The invariant -/

def Clean (s : State) : Prop :=
  spent s.log s.config.auth.refreshToken = false ∧
    ∀ ts, s.tokens = some ts → spent s.log ts.refreshToken = false

structure Inv (config : RemoteConfig) (s : State) : Prop where
  row : s.config = rowAfter config s.log
  inFlight : ∀ i, InFlight s i → s.refreshing = some i
  named : ∀ r, spent s.log r = true → r ≠ ""
  once : Calm config s.log → NeverResubmitted s.log
  clean : Calm config s.log → s.refreshing = none → Clean s

theorem Inv.spent_empty (h : Inv config s) : spent s.log "" = false := by
  by_contra hspent
  exact h.named "" (by simpa using hspent) rfl

theorem Inv.spentOnce (h : Inv config s) (hcalm : Calm config s.log) : SpentOnce s := by
  refine ⟨fun i j hi hj => ?_, h.once hcalm⟩
  have heq := (h.inFlight i hi).symm.trans (h.inFlight j hj)
  exact some.inj heq

/-- What the others do while operation `i` refreshes: they leave the row and the tokens
alone, and fill the cache with what is in the row. -/
structure Rely (config : RemoteConfig) (i : ℕ) (s s' : State) : Prop where
  log : s.log <:+ s'.log
  refreshing : s.refreshing = some i → s'.refreshing = some i
  row : s.refreshing = some i → s'.config = s.config
  spent : s.refreshing = some i → ∀ r, spent s'.log r = spent s.log r
  cache : s.refreshing = some i → Calm config s'.log → s'.tokens = s.tokens ∨
    ∃ ts, s'.tokens = some ts ∧ ts.refreshToken = s.config.auth.refreshToken

def Guar (config : RemoteConfig) (i : ℕ) (s s' : State) : Prop :=
  ∀ j, j ≠ i → Rely config j s s'

def Free (config : RemoteConfig) (s : State) (r : String) : Prop :=
  Calm config s.log → Rotation.spent s.log r = false

/-- The operation refreshes, and nothing is spent so far. -/
structure Held (config : RemoteConfig) (i : ℕ) (s : State) : Prop where
  refreshing : s.refreshing = some i
  clean : Calm config s.log → Clean s

variable {cfg : RemoteConfig} {s' s'' : State}

theorem Rely.of_eq (hlog : s'.log = s.log) (hrefreshing : s'.refreshing = s.refreshing)
    (hconfig : s'.config = s.config) (htokens : s'.tokens = s.tokens) : Rely config i s s' := by
  refine ⟨hlog ▸ suffix_refl _, fun h => hrefreshing.trans h, fun _ => hconfig, ?_, ?_⟩
  · intro _ r
    rw [hlog]
  · exact fun _ _ => .inl htokens

theorem Rely.refl (config : RemoteConfig) (i : ℕ) (s : State) : Rely config i s s :=
  Rely.of_eq rfl rfl rfl rfl

instance : Std.Refl (Rely config i) := ⟨Rely.refl config i⟩

theorem Rely.trans (h : Rely config i s s') (h' : Rely config i s' s'') : Rely config i s s'' := by
  refine ⟨h.log.trans h'.log, fun hi => h'.refreshing (h.refreshing hi), ?_, ?_, ?_⟩
  · intro hi
    rw [h'.row (h.refreshing hi), h.row hi]
  · intro hi r
    rw [h'.spent (h.refreshing hi), h.spent hi]
  intro hi hcalm
  rcases h'.cache (h.refreshing hi) hcalm with heq | ⟨ts, hts, hrow⟩
  · rw [heq]
    exact h.cache hi (hcalm.suffix h'.log)
  · rw [h.row hi] at hrow
    exact .inr ⟨ts, hts, hrow⟩

theorem Guar.of_idle (h : ∀ j, j ≠ i → s.refreshing ≠ some j) (hlog : s.log <:+ s'.log) :
    Guar config i s s' := fun j hj =>
  ⟨hlog, fun hi => absurd hi (h j hj), fun hi => absurd hi (h j hj), fun hi => absurd hi (h j hj),
    fun hi => absurd hi (h j hj)⟩

theorem Guar.of_refreshing (h : s.refreshing = some i) (hlog : s.log <:+ s'.log) :
    Guar config i s s' := by
  refine Guar.of_idle (fun j hj => ?_) hlog
  rw [h]
  exact fun heq => hj (some.inj heq).symm

theorem Guar.refl (config : RemoteConfig) (i : ℕ) (s : State) : Guar config i s s :=
  fun j _ => Rely.refl config j s

theorem Free.rely (h : Free config s r) (hi : s.refreshing = some i) (hR : Rely config i s s') :
    Free config s' r := by
  intro hcalm
  rw [hR.spent hi]
  exact h (hcalm.suffix hR.log)

theorem Held.rely (h : Held config i s) (hR : Rely config i s s') : Held config i s' := by
  refine ⟨hR.refreshing h.refreshing, fun hcalm => ?_⟩
  obtain ⟨hrow, hcache⟩ := h.clean (hcalm.suffix hR.log)
  refine ⟨?_, fun ts hts => ?_⟩
  · rw [hR.spent h.refreshing, hR.row h.refreshing]
    exact hrow
  rw [hR.spent h.refreshing]
  rcases hR.cache h.refreshing hcalm with heq | ⟨ts', hts', heq⟩
  · exact hcache ts (heq ▸ hts)
  obtain rfl := some.inj (hts.symm.trans hts')
  rw [heq]
  exact hrow

/-! ### The rules for single steps -/

abbrev Sound {α : Type} (config : RemoteConfig) (i : ℕ) (Q : α → State → Prop) (p : Run α)
    (s : State) : Prop :=
  p.Safe (Inv config) (Rely config i) (Guar config i) Q s

variable {α β : Type} {Q : α → State → Prop} {ts : TokenSet} {a : α}

theorem sound_read_bind {f : State → Env → β} {k : β → Run α}
    (hk : ∀ t e, Rely config i s t → Sound config i Q (k (f t e)) t) :
    Sound config i Q (Prog.act (fun s e => (s, f s e)) >>= k) s :=
  safe_act_bind.mpr fun t hR hI e => ⟨hI, Guar.refl config i t, hk t e hR⟩

theorem sound_getConfig_bind {k : Except String RemoteConfig → Run α}
    (herr : ∀ err t, Rely config i s t → Sound config i Q (k (.error err)) t)
    (hok : ∀ t, Rely config i s t → Sound config i Q (k (.ok t.config)) t) :
    Sound config i Q (getConfig >>= k) s :=
  safe_attempt_bind (Guar.refl config i) fun t hR hI =>
    ⟨fun err => herr err t hR, fun _ => ⟨hI, Guar.refl config i t, hok t hR⟩⟩

theorem Inv.note (h : Inv config s)
    (he : ∀ i url data reply unheard, e ≠ .requested i url data reply unheard)
    (hrow : ∀ i b before after, e ≠ .wrote i b (.config before after)) :
    Inv config { s with log := e :: s.log } := by
  have hspent : spent (e :: s.log) = spent s.log := by
    funext r
    cases e <;> first | rfl | exact absurd rfl (he _ _ _ _ _)
  refine ⟨?_, ?_, ?_, ?_, ?_⟩
  · rw [h.row]
    cases e with
    | wrote i b w =>
      cases w with
      | config before after => exact absurd rfl (hrow i b before after)
      | tokens ts => rfl
    | _ => rfl
  · rintro j ⟨⟨url, data, reply, unheard, hmem⟩, hout⟩
    exact h.inFlight j
      ⟨⟨url, data, reply, unheard, mem_of_ne_of_mem (he _ _ _ _ _).symm hmem⟩, hout⟩
  · intro r hr
    exact h.named r (hspent ▸ hr)
  · intro hcalm
    have := h.once hcalm.tail
    cases e <;> first | exact this | exact absurd rfl (he _ _ _ _ _)
  · intro hcalm hnone
    obtain ⟨hconfig, hcache⟩ := h.clean hcalm.tail hnone
    exact ⟨hspent ▸ hconfig, fun ts hts => hspent ▸ hcache ts hts⟩

theorem Inv.setTokens (h : Inv config s) (i : ℕ) (ts : Option TokenSet) :
    Inv config { s with tokens := ts, log := .wrote i false (.tokens ts) :: s.log } := by
  have hnote := h.note (e := .wrote i false (.tokens ts)) (by simp) (by simp)
  refine ⟨hnote.row, hnote.inFlight, hnote.named, hnote.once, fun hcalm hnone => ?_⟩
  obtain ⟨hrow, -⟩ := hnote.clean hcalm hnone
  refine ⟨hrow, ?_⟩
  rintro ts' rfl
  -- in a calm run it is the token of the row that is put into the cache
  have hts : ts'.refreshToken = (rowAfter config s.log).auth.refreshToken := hcalm.2.1
  rw [← h.row] at hts
  rw [hts]
  exact hrow

theorem guar_setTokens (h : Inv config s) (i : ℕ) (ts : TokenSet) :
    Guar config i s
      { s with tokens := some ts, log := .wrote i false (.tokens (some ts)) :: s.log } := by
  intro j _
  refine ⟨suffix_cons _ _, id, fun _ => rfl, fun _ _ => rfl, fun _ hcalm => .inr ?_⟩
  have hts : ts.refreshToken = (rowAfter config s.log).auth.refreshToken := hcalm.2.1
  rw [← h.row] at hts
  exact ⟨ts, rfl, hts⟩

theorem sound_fill_bind {k : Unit → Run α} (hk : ∀ t, Sound config i Q (k ()) t) :
    Sound config i Q (setTokens i (some ts) >>= k) s :=
  safe_act_bind.mpr fun _ _ hI _ => ⟨hI.setTokens i _, guar_setTokens hI i ts, hk _⟩

/-- What is known after an answer: the token to go on with is not spent, or nothing is. -/
def Replied (config : RemoteConfig) (i : ℕ) (cfg : RemoteConfig) (ts : TokenSet) (s : State) :
    Except String TokenSet → Prop
  | .ok newTS => s.refreshing = some i ∧ Free config s (orElse ts.refreshToken newTS.refreshToken)
  | .error _ =>
    Held config i s ∧ Free config s ts.refreshToken ∧ Free config s cfg.auth.refreshToken

theorem Replied.rely {t : State} (h : Replied config i cfg ts s reply) (hR : Rely config i s t) :
    Replied config i cfg ts t reply := by
  cases reply with
  | ok newTS => exact ⟨hR.refreshing h.1, h.2.rely h.1 hR⟩
  | error err =>
    obtain ⟨hheld, hfree, hcfg⟩ := h
    exact ⟨hheld.rely hR, hfree.rely hheld.refreshing hR, hcfg.rely hheld.refreshing hR⟩

theorem Inv.request (h : Inv config s) (hi : s.refreshing = some i) (hr : r ≠ "")
    (hfree : Free config s r) (hdata : submitted data = some r) (reply : Except String TokenSet)
    (unheard : Bool) :
    Inv config { s with log := .requested i url data reply unheard :: s.log } := by
  refine ⟨h.row, ?_, ?_, ?_, ?_⟩
  · rintro j ⟨⟨url', data', reply', unheard', hmem⟩, hout⟩
    rcases mem_cons.mp hmem with hnew | hold
    · rw [(Entry.requested.inj hnew).1]
      exact hi
    · exact h.inFlight j ⟨⟨url', data', reply', unheard', hold⟩, hout⟩
  · intro r' hr'
    rcases spent_requested hr' with hold | hnew
    · exact h.named r' hold
    rw [hdata] at hnew
    exact some.inj hnew ▸ hr
  · intro hcalm
    refine ⟨fun r' hr' => ?_, h.once hcalm.tail⟩
    rw [hdata] at hr'
    exact some.inj hr' ▸ hfree hcalm.tail
  · intro _ hnone
    rw [hi] at hnone
    cases hnone

theorem sound_tokenRequest_bind {k : Except String TokenSet → Run α} (hheld : Held config i s)
    (hts : ts.refreshToken ≠ "") (hfree : Free config s ts.refreshToken)
    (hcfg : Free config s cfg.auth.refreshToken) (hdata : submitted data = some ts.refreshToken)
    (hk : ∀ reply t, Replied config i cfg ts t reply → Sound config i Q (k reply) t) :
    Sound config i Q (tokenRequest i url data >>= k) s := by
  refine safe_act_bind.mpr fun t hR hI e => ?_
  have hheld' := hheld.rely hR
  have hfree' := hfree.rely hheld.refreshing hR
  have hcfg' := hcfg.rely hheld.refreshing hR
  refine ⟨hI.request hheld'.refreshing hts hfree' hdata _ _,
    Guar.of_refreshing hheld'.refreshing (suffix_cons _ _), hk _ _ ?_⟩
  cases e.token.tokenSet e.now with
  | ok newTS => exact ⟨hheld'.refreshing, fun hcalm => spent_orElse (hfree' hcalm.tail)⟩
  | error err => ?_
  -- in a calm run the endpoint has not accepted what it gives no answer to
  have hheard : Calm config (.requested i url data (.error err) e.unheard :: t.log) →
      e.unheard = false := by
    intro hcalm
    by_contra hne
    obtain ⟨ts, hts⟩ := hcalm.2.1 (by simpa using hne)
    cases hts
  have hsame : ∀ r, Free config t r → Free config
      { t with log := .requested i url data (.error err) e.unheard :: t.log } r := by
    intro r hr hcalm
    rw [spent_refused (hheard hcalm)]
    exact hr hcalm.tail
  refine ⟨⟨hheld'.refreshing, fun hcalm => ?_⟩, hsame _ hfree', hsame _ hcfg'⟩
  exact ⟨hsame _ (fun hc => (hheld'.clean hc).1) hcalm, fun ts hts =>
    hsame _ (fun hc => (hheld'.clean hc).2 ts hts) hcalm⟩

theorem sound_updateConfig_bind {k : Except String Unit → Run α} (hi : s.refreshing = some i)
    (herr : ∀ err t, t.refreshing = some i → ¬ Calm config t.log →
      Sound config i Q (k (.error err)) t)
    (hok : ∀ t, Rely config i s t → Sound config i Q (k (.ok ()))
      { t with config := cfg, log := .wrote i false (.config t.config cfg) :: t.log }) :
    Sound config i Q (updateConfig i false cfg >>= k) s := by
  refine safe_act_bind.mpr fun t hR hI e => ?_
  have ht := hR.refreshing hi
  cases e.storeErr with
  | some err =>
    exact ⟨hI.note (by simp) (by simp), Guar.of_refreshing ht (suffix_cons _ _),
      herr err _ ht not_calm_unsaved⟩
  | none => ?_
  refine ⟨⟨rfl, ?_, hI.named, fun hcalm => hI.once hcalm.tail, ?_⟩,
    Guar.of_refreshing ht (suffix_cons _ _), hok t hR⟩
  · rintro j ⟨⟨url, data, reply, unheard, hmem⟩, hout⟩
    exact hI.inFlight j ⟨⟨url, data, reply, unheard, mem_of_ne_of_mem (by simp) hmem⟩, hout⟩
  intro _ hnone
  have hnone' : t.refreshing = none := hnone
  rw [ht] at hnone'
  cases hnone'

theorem sound_setTokens {ts : Option TokenSet} (hi : s.refreshing = some i)
    (hclean : ∀ t, Rely config i s t → Inv config t → Calm config t.log →
      spent t.log t.config.auth.refreshToken = false ∧
        ∀ ts', ts = some ts' → spent t.log ts'.refreshToken = false) :
    Sound config i (fun _ t => Held config i t) (setTokens i ts) s := by
  refine safe_act.mpr fun t hR hI _ => ?_
  have ht := hR.refreshing hi
  refine ⟨hI.setTokens i ts, Guar.of_refreshing ht (suffix_cons _ _), fun t' hR' _ => ?_⟩
  have hheld : Held config i { t with tokens := ts, log := .wrote i false (.tokens ts) :: t.log } :=
    ⟨ht, fun hcalm => hclean t hR hI hcalm.tail⟩
  exact hheld.rely hR'

/-! ### The refresh -/

variable {m : Manager}

theorem clearTokens_sound (hi : s.refreshing = some i) :
    Sound config i (fun _ t => Held config i t) (clearTokens i cfg) s := by
  refine sound_updateConfig_bind hi (fun err t ht hcalm => ?_) fun t hR => ?_
  · exact sound_setTokens ht fun t' hR' _ hcalm' => absurd (hcalm'.suffix hR'.log) hcalm
  have ht := hR.refreshing hi
  refine sound_setTokens ht fun t' hR' hI' _ => ⟨?_, by simp⟩
  rw [hR'.row ht]
  exact hI'.spent_empty

theorem rediscover_sound (h : Held config i s) (hts : ts.refreshToken ≠ "")
    (hfree : Free config s ts.refreshToken) (hcfg : Free config s cfg.auth.refreshToken)
    (hdata : submitted data = some ts.refreshToken) :
    Sound config i (fun r t => Replied config i r.1 ts t r.2) (rediscover i cfg data err) s := by
  have hold : ∀ t, Rely config i s t →
      Sound config i (fun r t => Replied config i r.1 ts t r.2) (pure (cfg, .error err)) t := by
    intro t hR
    have hreplied : Replied config i cfg ts t (.error err) :=
      ⟨h.rely hR, hfree.rely h.refreshing hR, hcfg.rely h.refreshing hR⟩
    exact safe_pure fun t' hR' => hreplied.rely hR'
  have hagain : ∀ disc t, Held config i t → Free config t ts.refreshToken →
      Free config t cfg.auth.refreshToken →
      Sound config i (fun r t => Replied config i r.1 ts t r.2)
        (tokenRequest i disc.tokenURL data >>= fun reply => pure (cfg.rediscovered disc, reply))
        t := by
    intro disc t ht htfree htcfg
    have hsame : Free config t (cfg.rediscovered disc).auth.refreshToken := htcfg
    exact sound_tokenRequest_bind ht hts htfree hsame hdata
      fun reply t' h' => safe_pure fun t'' hR'' => h'.rely hR''
  refine sound_read_bind fun t e hR => ?_
  have ht := h.rely hR
  rcases e.discovery with err' | disc
  · exact hold t hR
  rcases disc with - | disc
  · exact hold t hR
  show Sound config i _ (ite _ _ _) t
  split
  · refine sound_updateConfig_bind ht.refreshing (fun err' t' hi' hcalm => ?_) fun t' hR' => ?_
    · exact hagain disc t' ⟨hi', fun hc => absurd hc hcalm⟩ (fun hc => absurd hc hcalm)
        fun hc => absurd hc hcalm
    have hR'' := hR.trans hR'
    have hfree' := hfree.rely h.refreshing hR''
    have hcfg' := hcfg.rely h.refreshing hR''
    have hheld' := h.rely hR''
    refine hagain disc _ ⟨hheld'.refreshing, fun hc => ?_⟩ (fun hc => hfree' hc.tail)
      fun hc => hcfg' hc.tail
    exact ⟨hcfg' hc.tail, (hheld'.clean hc.tail).2⟩
  · exact hold t hR

theorem finishRefresh_sound (h : Replied config i cfg ts s reply) :
    Sound config i (fun _ t => Held config i t) (finishRefresh m i cfg ts reply) s := by
  cases reply with
  | error err =>
    rw [finishRefresh]
    split
    · exact Safe.bind (clearTokens_sound h.1.refreshing) fun _ t ht =>
        safe_pure fun t' hR' => ht.rely hR'
    · exact safe_pure fun t hR => h.1.rely hR
  | ok newTS => ?_
  obtain ⟨hi, hfree⟩ := h
  refine sound_updateConfig_bind hi (fun err t ht hcalm => ?_) fun t hR => ?_
  · refine safe_pure fun t' hR' => ⟨hR'.refreshing ht, fun hc => ?_⟩
    exact absurd (hc.suffix hR'.log) hcalm
  refine Safe.bind (sound_setTokens (hR.refreshing hi) fun t' hR' _ hcalm => ?_)
    fun _ t' ht' => safe_pure fun t'' hR'' => ht'.rely hR''
  have ht := hR.refreshing hi
  have hfree' := hfree.rely hi hR
  have hspent : spent t'.log (orElse ts.refreshToken newTS.refreshToken) = false := by
    rw [hR'.spent ht]
    exact hfree' (hcalm.suffix hR'.log).tail
  refine ⟨?_, fun ts' hts' => ?_⟩
  · rw [hR'.row ht]
    exact hspent
  · rw [← some.inj hts']
    exact hspent

theorem doRefresh_sound (h : Held config i s) (hts : ts.refreshToken ≠ "")
    (hfree : Free config s ts.refreshToken) :
    Sound config i (fun _ t => Held config i t) (doRefresh m i ts) s := by
  refine sound_getConfig_bind (fun err t hR => safe_pure fun t' hR' => h.rely (hR.trans hR'))
    fun t hR => ?_
  have ht := h.rely hR
  refine sound_tokenRequest_bind ht hts (hfree.rely h.refreshing hR)
    (fun hcalm => (ht.clean hcalm).1) (submitted_refreshData _ _) fun reply t' h' => ?_
  cases reply with
  | ok newTS => exact finishRefresh_sound h'
  | error err => ?_
  show Sound config i _ (ite _ _ _) t'
  split
  · refine Safe.bind (rediscover_sound h'.1 hts h'.2.1 h'.2.2 (submitted_refreshData _ _)) ?_
    rintro ⟨cfg', reply⟩ t'' h''
    exact finishRefresh_sound h''
  · exact finishRefresh_sound h'

theorem doRefreshToken_sound {ts : Option TokenSet} (h : Held config i s)
    (hfree : ∀ ts', ts = some ts' → Free config s ts'.refreshToken) :
    Sound config i (fun _ t => Held config i t) (doRefreshToken m i ts) s := by
  cases ts with
  | none => exact safe_pure fun t hR => h.rely hR
  | some ts => ?_
  rw [doRefreshToken]
  split
  · exact safe_pure fun t hR => h.rely hR
  · exact doRefresh_sound h (by assumption) (hfree ts rfl)

theorem Inv.begin (h : Inv config s) (hnone : s.refreshing = none) (i : ℕ) :
    Inv config { s with refreshing := some i } := by
  refine ⟨h.row, fun j hj => ?_, h.named, h.once, nofun⟩
  have := h.inFlight j hj
  rw [hnone] at this
  cases this

theorem Inv.finish (h : Inv config s) (hheld : Held config i s) (r : Except String Unit) :
    Inv config { s with refreshing := none, outcomes := (i, r) :: s.outcomes } := by
  refine ⟨h.row, ?_, h.named, h.once, fun hcalm _ => hheld.clean hcalm⟩
  rintro j ⟨hreq, hout⟩
  have hj := h.inFlight j ⟨hreq, fun r' hr' => hout r' (mem_cons_of_mem _ hr')⟩
  rw [hheld.refreshing] at hj
  cases hj
  exact absurd mem_cons_self (hout r)

theorem refreshToken_sound : Sound config i (fun _ _ => True) (refreshToken m i) s := by
  refine safe_act_bind.mpr fun t hR hI _ => ?_
  cases ht : t.refreshing with
  | some k =>
    refine ⟨hI, Guar.refl config i t, ?_⟩
    refine safe_act.mpr fun t' _ hI' e => ?_
    cases t'.outcomes.lookup k with
    | some _ | none => exact ⟨hI', Guar.refl config i t', fun _ _ _ => trivial⟩
  | none => ?_
  have hidle : ∀ j, j ≠ i → t.refreshing ≠ some j := by simp [ht]
  refine ⟨hI.begin ht i, Guar.of_idle hidle (suffix_refl _), ?_⟩
  have hclean := fun hcalm => hI.clean hcalm ht
  have hheld : Held config i { t with refreshing := some i } := ⟨rfl, hclean⟩
  refine Safe.bind (doRefreshToken_sound hheld fun ts hts hcalm => (hclean hcalm).2 ts hts) ?_
  intro r t' ht'
  refine safe_act_bind.mpr fun t'' hR'' hI'' _ => ?_
  have ht'' := ht'.rely hR''
  exact ⟨hI''.finish ht'' r, Guar.of_refreshing ht''.refreshing (suffix_refl _), safe_true⟩

/-! ### Operations -/

theorem useTokens_sound (ts : TokenSet) :
    Sound config i (fun _ _ => True) (useTokens m i ts) s := by
  refine sound_read_bind fun t e _ => ?_
  split
  · refine Safe.bind refreshToken_sound fun r t' _ => ?_
    cases r with
    | error err => exact safe_true
    | ok u => ?_
    refine sound_read_bind fun t'' _ _ => ?_
    cases t''.tokens with
    | none | some _ => exact safe_true
  · exact safe_true

theorem getAccessToken_sound : Sound config i (fun _ _ => True) (getAccessToken m i) s := by
  refine sound_read_bind fun t _ _ => ?_
  cases t.tokens with
  | some ts => exact useTokens_sound ts
  | none => ?_
  refine sound_getConfig_bind (fun _ _ _ => safe_true) fun t' _ => ?_
  dsimp only
  cases loadTokens m t'.config with
  | none => exact safe_true
  | some ts => exact sound_fill_bind fun t'' => useTokens_sound ts

theorem getTokenInfo_sound : Sound config i (fun _ _ => True) (getTokenInfo m i) s := by
  refine sound_read_bind fun t _ _ => ?_
  cases t.tokens with
  | some ts => exact safe_true
  | none => ?_
  refine sound_getConfig_bind (fun _ _ _ => safe_true) fun t' _ => ?_
  dsimp only
  cases loadTokens m t'.config with
  | none => exact safe_true
  | some ts => exact sound_fill_bind fun t'' => safe_true

def Op.UsesTokens : Op → Prop
  | .getAccessToken | .getTokenInfo | .forceRefresh => True
  | _ => False

theorem op_sound {op : Op} (hop : Op.UsesTokens op) :
    Sound config i (fun _ _ => True) (op.run m i) s := by
  have hbody : ∀ t, Sound config i (fun _ _ => True) (op.body m i) t := by
    intro t
    cases op with
    | getAccessToken => exact getAccessToken_sound
    | getTokenInfo => exact getTokenInfo_sound
    | forceRefresh => exact Safe.bind refreshToken_sound fun _ _ _ => safe_true
    | handleCallback _ _ | reRegister _ | edit _ => exact hop.elim
  refine safe_act_bind.mpr fun t _ hI _ => ⟨hI.note (by simp) (by simp), ?_, hbody _⟩
  intro j _
  exact ⟨suffix_cons _ _, id, fun _ => rfl, fun _ _ => rfl, fun _ _ => .inl rfl⟩

theorem Inv.initial (config : RemoteConfig) (tokens : Option TokenSet)
    (pending : List PendingAuth) :
    Inv config { config := config, tokens := tokens, pending := pending } := by
  refine ⟨rfl, ?_, by simp [spent], fun _ => trivial, fun _ _ => ⟨rfl, fun _ _ => rfl⟩⟩
  rintro j ⟨⟨url, data, reply, unheard, hmem⟩, -⟩
  simp at hmem

theorem world_inv (ev : WorldEvent) (s : State) (h : Inv config s) :
    Inv config (world ev s) ∧ ∀ i, Rely config i s (world ev s) := by
  cases ev with
  | flowStarted _ | cleanup _ =>
    exact ⟨⟨h.row, h.inFlight, h.named, h.once, h.clean⟩, fun _ => Rely.of_eq rfl rfl rfl rfl⟩

theorem operations_safe (m : Manager) (config : RemoteConfig) (tokens : Option TokenSet)
    (pending : List PendingAuth) {ops : List Op} (hops : ∀ op ∈ ops, Op.UsesTokens op) :
    (operations m config tokens pending ops).AllSafe (Inv config) (Rely config) (Guar config)
      (fun _ _ _ => True) :=
  Pool.allSafe_mapIdx (Inv.initial config tokens pending) fun _ op hop =>
    op_sound (hops op (mem_of_getElem? hop))

/-- **No refresh token is spent twice in an orderly run** of operations that use tokens, from
any row and any cache, and one refresh is in flight at a time. -/
theorem refresh_token_once (m : Manager) (config : RemoteConfig) (tokens : Option TokenSet)
    (pending : List PendingAuth) (ops : List Op) (hops : ∀ op ∈ ops, Op.UsesTokens op)
    (sched : List (Event WorldEvent Env))
    (hsaved : Saved ((operations m config tokens pending ops).exec world sched).state.log)
    (hrun : Orderly config ((operations m config tokens pending ops).exec world sched).state.log) :
    SpentOnce ((operations m config tokens pending ops).exec world sched).state := by
  have hsafe := Pool.exec_safe (R := Rely config) (G := Guar config) (Rely.refl config)
    (fun _ _ _ _ => Rely.trans) (fun i j hij _ _ _ h => h j hij.symm) world_inv
    (operations_safe m config tokens pending hops) sched
  exact hsafe.inv.spentOnce ⟨hsaved, hrun⟩

def expiredManager : Manager := ⟨"https://relay.example", "srv", toString, fun _ => some 0⟩

def expiredConfig : RemoteConfig where
  url := "https://mcp.example"
  auth :=
    { authType := "oauth", clientID := "relay", tokenURL := "https://idp.example/token"
      accessToken := "a1", refreshToken := "r1", tokenExpiry := "0" }

theorem refresh_token_once_access :
    let P := (operations expiredManager expiredConfig none [] [.getAccessToken]).exec world
      (replicate 12 (.run 0 { token := .ok "a2" "r2" "Bearer" 0 }))
    P.result 0 = some (.token "a2") ∧ spent P.state.log "r1" = true ∧ SpentOnce P.state := by
  intro P
  let old : TokenSet := { accessToken := "a1", refreshToken := "r1", expiresAt := some 0 }
  let new : TokenSet := { accessToken := "a2", refreshToken := "r2", tokenType := "Bearer" }
  have hlog : P.state.log = [.wrote 0 false (.tokens (some new)),
      .wrote 0 false (.config expiredConfig (expiredConfig.withTokens expiredManager new)),
      .requested 0 "https://idp.example/token" (refreshData expiredConfig.auth old) (.ok new) false,
      .wrote 0 false (.tokens (some old)), .started 0] := by
    decide +kernel
  refine ⟨by decide +kernel, by decide +kernel, ?_⟩
  refine refresh_token_once expiredManager expiredConfig none [] [.getAccessToken]
    (by simp [Op.UsesTokens]) _ ?_ ?_
  · intro i hi
    rw [hlog] at hi
    simp at hi
  · exact ⟨rfl, by simp, rfl, trivial⟩

/-- The tokens are read for display and not yet cached; another operation loads them too,
refreshes them and saves what it got; then the display caches the old ones, and the next
refresh submits the token that was accepted before. -/
theorem refresh_token_twice :
    let ops : List Op := [.getTokenInfo, .getAccessToken, .forceRefresh]
    let P := (operations expiredManager expiredConfig none [] ops).exec world
      (replicate 3 (.run 0 {}) ++
        replicate 12 (.run 1 { token := .ok "a2" "r2" "Bearer" 0 }) ++ [.run 0 {}] ++
        replicate 4 (.run 2 { token := .status 400 "invalid_grant" "revoked" }))
    Saved P.state.log ∧ P.result 1 = some (.token "a2") ∧ ¬ SpentOnce P.state := by
  intro ops P
  let old : TokenSet := { accessToken := "a1", refreshToken := "r1", expiresAt := some 0 }
  have hlog : P.state.log =
      .requested 2 "https://idp.example/token" (refreshData expiredConfig.auth old)
        (.error "token endpoint returned 400: invalid_grant: revoked") false ::
        P.state.log.tail := by
    decide +kernel
  have hspent : spent P.state.log.tail "r1" = true := by decide +kernel
  have hunsaved : P.state.log.all (fun e => match e with | .unsaved _ => false | _ => true) := by
    decide +kernel
  have hres : P.result 1 = some (.token "a2") := by decide +kernel
  clear_value P
  refine ⟨fun i hi => ?_, hres, fun h => ?_⟩
  · exact absurd (all_eq_true.mp hunsaved _ hi) (by simp)
  have honce := h.once
  rw [hlog] at honce
  rw [honce.1 "r1" rfl] at hspent
  cases hspent

end ArcRelay.OAuth.Rotation
