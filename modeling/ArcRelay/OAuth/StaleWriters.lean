import ArcRelay.Lib.History
import ArcRelay.OAuth.Manager

/-!
# Stale writers

A callback, a re-registration or an edit that has returned has settled the configuration:
its tokens, credentials and fields should stay until an operation that was started later
replaces them.  They need not: an operation that has read the configuration before writes
it back as a whole afterwards, and a refresh with tokens that have just been replaced
clears them.

`settled_kept` says that this is the only way to lose them.  In every run in which no
operation writes after another has written since it was started (refreshes among
themselves apart), they are kept.  `tokens_cleared_by_stale_refresh` is the refresh.

* `Kept`, `Timely`: the promise, and the condition on a run.
* `settled_kept`: the promise is kept in timely runs.
-/

namespace ArcRelay.OAuth

open Interleave Prog List

/-! ### What should hold -/

def RemoteConfig.withoutEndpoints (cfg : RemoteConfig) : RemoteConfig :=
  { cfg with
    auth := { cfg.auth with
      accessToken := "", refreshToken := "", tokenExpiry := ""
      tokenURL := "", authURL := "", registrationEndpoint := "" } }

def RemoteConfig.withoutRegistration (cfg : RemoteConfig) : RemoteConfig :=
  { cfg.withoutEndpoints with
    auth := { cfg.withoutEndpoints.auth with
      clientID := "", clientSecret := "", registeredRedirectURI := "" } }

def Op.Changes : Op → RemoteConfig → RemoteConfig → Prop
  | .handleCallback _ _, before, after => after.cleared = before.cleared
  | .reRegister _, before, after => after.withoutRegistration = before.withoutRegistration
  | .edit form, before, after => after = before.preserve form
  | .getAccessToken, before, after | .forceRefresh, before, after =>
    after.withoutEndpoints = before.withoutEndpoints
  | .getTokenInfo, _, _ => False

/-- The operations whose result should stay. -/
def Op.settles : Op → Bool
  | .handleCallback _ _ | .reRegister _ | .edit _ => true
  | .getAccessToken | .getTokenInfo | .forceRefresh => false

def Op.Leaves : Op → RemoteConfig → Option (Option TokenSet) → Prop
  | .handleCallback _ _, cfg, ts => ∃ t : TokenSet, ts = some (some t) ∧
    cfg.auth.accessToken = t.accessToken ∧ cfg.auth.refreshToken = t.refreshToken
  | .reRegister _, cfg, ts => ts = some none ∧ cfg.cleared = cfg
  | .edit form, cfg, ts => ts = none ∧ ∃ old : RemoteConfig, cfg = old.preserve form
  | _, _, _ => False

/-- What an operation that has returned has settled is kept: whoever writes afterwards was
started afterwards, until then the row and the memory are as it left them, and no one
changes in the row what they are not about. -/
structure Kept (ops : List Op) (s : State) : Prop where
  later : ∀ newer i cfg ts older, s.log = newer ++ .returned i cfg ts :: older →
    ∀ j b w, .wrote j b w ∈ newer → .started j ∈ newer
  remains : ∀ newer i cfg ts older, s.log = newer ++ .returned i cfg ts :: older →
    (∀ j b w, .wrote j b w ∉ newer) → s.config = cfg ∧ ∀ t, ts = some t → s.tokens = t
  changes : ∀ i b before after, .wrote i b (.config before after) ∈ s.log →
    ∃ op, ops[i]? = some op ∧ op.Changes before after

/-! ### The condition -/

def since (i : ℕ) (log : List Entry) : List Entry := log.takeWhile fun e => e ≠ .started i

/-- No other operation has written since, but for refreshes if this is one. -/
def Fresh (i : ℕ) (settles : Bool) (log : List Entry) : Prop :=
  ∀ j b w, .wrote j b w ∈ since i log → j = i ∨ b = false ∧ settles = false

/-- The condition on a run: whoever writes is fresh. -/
def Timely : List Entry → Prop
  | [] => True
  | .wrote i settles _ :: log => Fresh i settles log ∧ Timely log
  | _ :: log => Timely log

variable {log log' newer older : List Entry} {i j : ℕ} {b : Bool} {s s' : State} {e : Entry}
  {w : Write} {cfg x y : RemoteConfig} {ts : Option (Option TokenSet)} {ops : List Op}

theorem Timely.tail (h : Timely (e :: log)) : Timely log := by
  cases e with
  | wrote i settles w => exact h.2
  | started _ | returned _ _ _ | requested _ _ _ _ _ | unsaved _ => exact h

theorem Timely.suffix (h : Timely log') (hl : log <:+ log') : Timely log :=
  History.suffix_of_tail (fun _ _ => Timely.tail) h hl

def Entry.op : Entry → ℕ
  | .started i | .wrote i _ _ | .returned i _ _ | .requested i _ _ _ _ | .unsaved i => i

abbrev own (i : ℕ) (log : List Entry) : List Entry := History.own Entry.op i log

theorem Fresh.of_suffix (h : Fresh i b log') (hl : log <:+ log') (hown : own i log' = own i log) :
    Fresh i b log := by
  obtain ⟨front, rfl⟩ := hl
  have hnone : ∀ e ∈ front, e.op ≠ i := History.own_append.mp hown
  have hsince : since i (front ++ log) = front ++ since i log := by
    refine takeWhile_append_of_pos fun e he => decide_eq_true ?_
    rintro rfl
    exact hnone _ he rfl
  intro j b' w hw
  refine h j b' w ?_
  rw [hsince]
  exact mem_append_right _ hw

theorem Fresh.of_wrote {b' : Bool} (hij : j ≠ i) (h : Fresh j b' (.wrote i b w :: log)) :
    b = false ∧ b' = false := by
  have hmem : .wrote i b w ∈ since j (.wrote i b w :: log) := by
    exact mem_cons_self
  exact (h i b w hmem).resolve_left hij.symm

/-! ### The order of entries -/

/-- An operation writes after its start and not after its return, and returns with a
write. -/
def Ordered : List Entry → Prop
  | [] => True
  | .wrote i _ _ :: log => .started i ∈ log ∧ (∀ cfg ts, .returned i cfg ts ∉ log) ∧ Ordered log
  | .returned i _ _ :: log => (∃ w older, log = .wrote i true w :: older) ∧ Ordered log
  | _ :: log => Ordered log

theorem Ordered.tail (h : Ordered (e :: log)) : Ordered log := by
  cases e with
  | wrote i settles w => exact h.2.2
  | started i => exact h
  | returned i cfg ts => exact h.2
  | requested _ _ _ _ _ | unsaved _ => exact h

theorem Ordered.suffix (h : Ordered log') (hl : log <:+ log') : Ordered log :=
  History.suffix_of_tail (fun _ _ => Ordered.tail) h hl

/-- **Whoever writes after a return was started after it.**  Otherwise the write that came
with the return lies between its start and its own write. -/
theorem Timely.later (h : Timely log) (hord : Ordered log)
    (hlog : log = newer ++ .returned i cfg ts :: older) (hw : .wrote j b w ∈ newer) :
    .started j ∈ newer := by
  obtain ⟨front, back, rfl⟩ := append_of_mem hw
  have hsuffix : .wrote j b w :: (back ++ .returned i cfg ts :: older) <:+ log :=
    ⟨front, by simp [hlog]⟩
  obtain ⟨hfresh, -⟩ := h.suffix hsuffix
  obtain ⟨hstart, hopen, hord'⟩ := hord.suffix hsuffix
  obtain ⟨⟨w', older', rfl⟩, -⟩ := hord'.suffix (suffix_append _ _)
  have hij : j ≠ i := by
    rintro rfl
    exact hopen cfg ts (mem_append_right _ mem_cons_self)
  by_contra hnot
  -- then the write before the return counts as one since the start of `j`
  have hback : ∀ e ∈ back, e ≠ .started j := by
    rintro e he rfl
    exact hnot (mem_append_right _ (mem_cons_of_mem _ he))
  have hmem : .wrote i true w' ∈
      since j (back ++ .returned i cfg ts :: .wrote i true w' :: older') := by
    rw [since, takeWhile_append_of_pos fun e he => decide_eq_true (hback e he),
      takeWhile_cons_of_pos (by simp), takeWhile_cons_of_pos (by simp)]
    simp
  rcases hfresh i true w' hmem with heq | ⟨hfalse, -⟩
  · exact hij heq.symm
  · cases hfalse

/-! ### The invariant -/

/-- The row and the memory are as the operations that have returned since the last write
have left them. -/
def Remains (config : RemoteConfig) (tokens : Option TokenSet) : List Entry → Prop
  | [] => True
  | .wrote _ _ _ :: _ => True
  | .returned _ cfg ts :: log =>
    (config = cfg ∧ ∀ t, ts = some t → tokens = t) ∧ Remains config tokens log
  | _ :: log => Remains config tokens log

structure Inv (ops : List Op) (s : State) : Prop where
  ordered : Ordered s.log
  remains : Timely s.log → Remains s.config s.tokens s.log
  changes : Timely s.log → ∀ i b before after, .wrote i b (.config before after) ∈ s.log →
    ∃ op, ops[i]? = some op ∧ op.Changes before after

theorem remains_of_append {config : RemoteConfig} {tokens : Option TokenSet}
    (h : Remains config tokens (newer ++ .returned i cfg ts :: older))
    (hnew : ∀ j b w, .wrote j b w ∉ newer) : config = cfg ∧ ∀ t, ts = some t → tokens = t := by
  induction newer with
  | nil => exact h.1
  | cons e newer ih => ?_
  have hnew' : ∀ j b w, .wrote j b w ∉ newer := fun j b w hw => hnew j b w (mem_cons_of_mem _ hw)
  cases e with
  | wrote j b w => exact absurd mem_cons_self (hnew j b w)
  | started j => exact ih h hnew'
  | returned j cfg' ts' => exact ih h.2 hnew'
  | requested _ _ _ _ _ | unsaved _ => exact ih h hnew'

theorem Inv.kept (h : Inv ops s) (hrun : Timely s.log) : Kept ops s :=
  ⟨fun _ _ _ _ _ hlog _ _ _ hw => hrun.later h.ordered hlog hw,
    fun _ _ _ _ _ hlog hnew => remains_of_append (hlog ▸ h.remains hrun) hnew,
    h.changes hrun⟩

/-! ### Operations among others -/

/-- Two configurations that a settling operation, or a refresh, takes for the same. -/
def Agree : Bool → RemoteConfig → RemoteConfig → Prop
  | true, cfg, cfg' => cfg = cfg'
  | false, cfg, cfg' => cfg.withoutEndpoints = cfg'.withoutEndpoints

theorem Agree.refl (b : Bool) (cfg : RemoteConfig) : Agree b cfg cfg := by
  cases b with
  | true => exact Eq.refl cfg
  | false => exact Eq.refl cfg.withoutEndpoints

theorem Agree.symm (h : Agree b x y) : Agree b y x := by
  cases b with
  | true | false => exact Eq.symm h

theorem Agree.trans {z : RemoteConfig} (hxy : Agree b x y) (hyz : Agree b y z) : Agree b x z := by
  cases b with
  | true | false => exact Eq.trans hxy hyz

structure Rely (i : ℕ) (b : Bool) (s s' : State) : Prop where
  log : s.log <:+ s'.log
  own : own i s'.log = own i s.log
  config : Timely s'.log → Fresh i b s'.log → Agree b s.config s'.config

def Guar (i : ℕ) (s s' : State) : Prop := ∀ j, j ≠ i → ∀ b, Rely j b s s'

theorem Rely.of_eq (hlog : s'.log = s.log) (hconfig : s'.config = s.config) : Rely i b s s' :=
  ⟨hlog ▸ suffix_refl _, by rw [hlog], fun _ _ => hconfig ▸ Agree.refl b _⟩

instance : Std.Refl (Rely i b) := ⟨fun _ => Rely.of_eq rfl rfl⟩

theorem Rely.trans {x y z : State} (hxy : Rely i b x y) (hyz : Rely i b y z) : Rely i b x z := by
  refine ⟨hxy.log.trans hyz.log, hyz.own.trans hxy.own, fun htime hfresh => ?_⟩
  have hfresh' := hfresh.of_suffix hyz.log hyz.own
  exact (hxy.config (htime.suffix hyz.log) hfresh').trans (hyz.config htime hfresh)

structure Running (i : ℕ) (log : List Entry) : Prop where
  started : .started i ∈ log
  active : ∀ cfg ts, .returned i cfg ts ∉ log

/-- An operation that has read a configuration: it is still the current one as long as the
operation is fresh. -/
structure Holds (i : ℕ) (b : Bool) (cfg : RemoteConfig) (s : State) : Prop where
  running : Running i s.log
  current : Timely s.log → Fresh i b s.log → Agree b cfg s.config

theorem Running.rely (h : Running i s.log) (hR : Rely i b s s') : Running i s'.log :=
  ⟨(History.mem_congr hR.own rfl).mpr h.started, fun cfg ts hmem =>
    h.active cfg ts ((History.mem_congr hR.own rfl).mp hmem)⟩

theorem Running.cons (h : Running i s.log) (he : ∀ cfg ts, e ≠ .returned i cfg ts) :
    Running i (e :: s.log) :=
  ⟨mem_cons_of_mem _ h.started, fun cfg ts hmem =>
    h.active cfg ts (mem_of_ne_of_mem (he cfg ts).symm hmem)⟩

theorem Holds.rely (h : Holds i b cfg s) (hR : Rely i b s s') : Holds i b cfg s' := by
  refine ⟨h.running.rely hR, fun htime hfresh => ?_⟩
  have hfresh' := hfresh.of_suffix hR.log hR.own
  exact (h.current (htime.suffix hR.log) hfresh').trans (hR.config htime hfresh)

theorem Guar.note (he : e.op = i) (hlog : s'.log = e :: s.log) (hconfig : s'.config = s.config) :
    Guar i s s' := by
  intro j hj b
  refine ⟨hlog ▸ suffix_cons _ _, ?_, fun _ _ => hconfig ▸ Agree.refl b _⟩
  rw [hlog]
  exact History.own_cons (he ▸ hj.symm)

theorem Guar.write (front : List Entry) (hfront : ∀ e ∈ front, e.op = i)
    (hlog : s'.log = front ++ .wrote i b w :: s.log)
    (hconfig : b = false → Timely s'.log → Agree false s.config s'.config) : Guar i s s' := by
  intro j hj b'
  have hown' : own j (.wrote i b w :: s.log) = own j s.log := History.own_cons hj.symm
  have hown : own j s'.log = own j (.wrote i b w :: s.log) := by
    rw [hlog]
    exact History.own_append.mpr fun e he => hfront e he ▸ hj.symm
  have hsuffix : .wrote i b w :: s.log <:+ s'.log := ⟨front, hlog.symm⟩
  refine ⟨(suffix_cons _ _).trans hsuffix, hown.trans hown', fun htime hfresh => ?_⟩
  obtain ⟨hb, rfl⟩ := (hfresh.of_suffix hsuffix hown).of_wrote hj
  exact hconfig hb htime

theorem Inv.of_eq (h : Inv ops s) (hlog : s'.log = s.log) (hconfig : s'.config = s.config)
    (htokens : s'.tokens = s.tokens) : Inv ops s' := by
  obtain ⟨hord, hrem, hch⟩ := h
  refine ⟨?_, ?_, ?_⟩
  · rw [hlog]
    exact hord
  · rw [hlog, hconfig, htokens]
    exact hrem
  · rw [hlog]
    exact hch

/-- Entries that neither write nor return. -/
def Entry.Quiet : Entry → Prop
  | .started _ | .requested _ _ _ _ _ | .unsaved _ => True
  | .wrote _ _ _ | .returned _ _ _ => False

theorem Inv.quiet (h : Inv ops s) (he : e.Quiet) : Inv ops { s with log := e :: s.log } := by
  have hne : ∀ j b w, .wrote j b w ≠ e := by
    rintro j b w rfl
    exact he
  refine ⟨?_, ?_, ?_⟩
  · cases e <;> first | exact h.ordered | exact he.elim
  · cases e <;> first | exact h.remains | exact he.elim
  intro htime j b before after hw
  exact h.changes htime.tail j b before after (mem_of_ne_of_mem (hne _ _ _) hw)

theorem Inv.writeTokens (h : Inv ops s) (hrun : Running i s.log) (b : Bool) (ts : Option TokenSet) :
    Inv ops { s with tokens := ts, log := .wrote i b (.tokens ts) :: s.log } :=
  ⟨⟨hrun.started, hrun.active, h.ordered⟩, fun _ => trivial, fun htime j b before after hw =>
    h.changes htime.tail j b before after (mem_of_ne_of_mem (by simp) hw)⟩

theorem Inv.writeConfig (h : Inv ops s) (hrun : Running i s.log)
    (hchange : Timely (.wrote i b (.config s.config cfg) :: s.log) →
      ∃ op, ops[i]? = some op ∧ op.Changes s.config cfg) :
    Inv ops { s with config := cfg, log := .wrote i b (.config s.config cfg) :: s.log } := by
  refine ⟨⟨hrun.started, hrun.active, h.ordered⟩, fun _ => trivial, ?_⟩
  intro htime j b' before after hw
  rcases mem_cons.mp hw with hnew | hold
  · obtain ⟨rfl, -, rfl, rfl⟩ := hnew
    exact hchange htime
  · exact h.changes htime.tail j b' before after hold

theorem Inv.returned (h : Inv ops s) (hlog : s.log = .wrote i true w :: older)
    (hconfig : Timely s.log → s.config = cfg) (htokens : ∀ t, ts = some t → s.tokens = t) :
    Inv ops { s with log := .returned i cfg ts :: s.log } :=
  ⟨⟨⟨w, older, hlog⟩, h.ordered⟩, fun htime => ⟨⟨hconfig htime, htokens⟩, h.remains htime⟩,
    fun htime j b before after hw =>
      h.changes htime j b before after (mem_of_ne_of_mem (by simp) hw)⟩

/-! ### The rules for single steps -/

abbrev Sound {α : Type} (ops : List Op) (i : ℕ) (b : Bool) (Q : α → State → Prop) (p : Run α)
    (s : State) : Prop :=
  p.Safe (Inv ops) (Rely i b) (Guar i) Q s

section

variable {α β : Type} {Q : α → State → Prop} {op : Op} {cfg' : RemoteConfig} {k : β → Run α}
  {ts : Option TokenSet}

theorem Guar.refl (i : ℕ) (s : State) : Guar i s s := fun _ _ _ => Rely.of_eq rfl rfl

theorem sound_silent_bind {f : State → Env → State × β}
    (hf : ∀ t e, (f t e).1.log = t.log ∧ (f t e).1.config = t.config ∧ (f t e).1.tokens = t.tokens)
    (hk : ∀ t e, Rely i b s (f t e).1 → Sound ops i b Q (k (f t e).2) (f t e).1) :
    Sound ops i b Q (Prog.act f >>= k) s := by
  refine safe_act_bind.mpr fun t hR hI e => ?_
  obtain ⟨hlog, hconfig, htokens⟩ := hf t e
  exact ⟨hI.of_eq hlog hconfig htokens, fun _ _ _ => Rely.of_eq hlog hconfig,
    hk t e (hR.trans (Rely.of_eq hlog hconfig))⟩

theorem sound_observe_bind {f : Env → β} (hk : ∀ t e, Rely i b s t → Sound ops i b Q (k (f e)) t) :
    Sound ops i b Q (Prog.observe f >>= k) s :=
  sound_silent_bind (fun _ _ => ⟨rfl, rfl, rfl⟩) hk

theorem sound_ne {r r' : α} {P : State → Prop} (h : r ≠ r') :
    Sound ops i b (fun x t => x = r' → P t) (pure r) s :=
  fun _ _ _ heq => absurd heq h

theorem sound_getConfig_bind {k : Except String RemoteConfig → Run α} (hrun : Running i s.log)
    (herr : ∀ err t, Rely i b s t → Sound ops i b Q (k (.error err)) t)
    (hok : ∀ cfg t, Holds i b cfg t → Sound ops i b Q (k (.ok cfg)) t) :
    Sound ops i b Q (getConfig >>= k) s := by
  refine safe_attempt_bind (Guar.refl i) fun t hR hI => ⟨fun err => herr err t hR, ?_⟩
  exact fun e => ⟨hI, Guar.refl i t, hok _ t ⟨hrun.rely hR, fun _ _ => Agree.refl b _⟩⟩

theorem Fresh.of_cons (he : e ≠ .started i) (h : Fresh i b (e :: log)) :
    Fresh i b log := by
  intro j b' w hw
  refine h j b' w ?_
  rw [since, takeWhile_cons_of_pos (by simpa using he)]
  exact mem_cons_of_mem _ hw

theorem Holds.quiet (h : Holds i b cfg s) (he : e.Quiet) (hne : e ≠ .started i) :
    Holds i b cfg { s with log := e :: s.log } := by
  refine ⟨h.running.cons ?_, fun htime hfresh => h.current htime.tail (hfresh.of_cons hne)⟩
  rintro cfg ts rfl
  exact he

theorem sound_tokenRequest_bind {k : Except String TokenSet → Run α} {url : String}
    {data : List (String × String)} (h : Holds i b cfg s)
    (hk : ∀ r t, Holds i b cfg t → Sound ops i b Q (k r) t) :
    Sound ops i b Q (tokenRequest i url data >>= k) s := by
  refine safe_act_bind.mpr fun t hR hI e => ?_
  refine ⟨hI.quiet trivial, Guar.note rfl rfl rfl, hk _ _ ?_⟩
  exact (h.rely hR).quiet trivial (by simp)

theorem sound_updateConfig_bind {k : Except String Unit → Run α} (hop : ops[i]? = some op)
    (h : Holds i b cfg s) (hchange : ∀ row, Agree b cfg row → op.Changes row cfg')
    (hagree : b = false → Agree false cfg cfg')
    (herr : ∀ err t, Holds i b cfg t → Sound ops i b Q (k (.error err)) t)
    (hok : ∀ t, Holds i b cfg' t → Sound ops i b Q (k (.ok ())) t) :
    Sound ops i b Q (updateConfig i b cfg' >>= k) s := by
  refine safe_act_bind.mpr fun t hR hI e => ?_
  have ht := h.rely hR
  cases e.storeErr with
  | some err =>
    exact ⟨hI.quiet trivial, Guar.note rfl rfl rfl, herr err _ (ht.quiet trivial (by simp))⟩
  | none => ?_
  refine ⟨?_, ?_, hok _ ⟨ht.running.cons (by simp), fun _ _ => Agree.refl b _⟩⟩
  · refine hI.writeConfig ht.running fun htime => ⟨op, hop, ?_⟩
    exact hchange _ (ht.current htime.2 htime.1)
  refine Guar.write (b := b) (w := .config t.config cfg') [] (by simp) rfl ?_
  rintro rfl htime
  exact (ht.current htime.2 htime.1).symm.trans (hagree rfl)

theorem sound_setTokens (hrun : Running i s.log) :
    Sound ops i false (fun _ t => Running i t.log) (setTokens i ts) s := by
  refine safe_act.mpr fun t hR hI _ => ?_
  have ht := hrun.rely hR
  refine ⟨hI.writeTokens ht false ts, ?_, fun t' hR' _ => (ht.cons (by simp)).rely hR'⟩
  exact Guar.write (b := false) (w := .tokens ts) [] (by simp) rfl fun _ _ => Agree.refl false _

theorem sound_settle_bind {k : Unit → Run α} (h : Holds i true cfg s)
    (hk : ∀ t : State, .returned i cfg (some ts) ∈ t.log → Sound ops i true Q (k ()) t) :
    Sound ops i true Q (settle i cfg ts >>= k) s := by
  refine safe_act_bind.mpr fun t hR hI _ => ?_
  have ht := h.rely hR
  refine ⟨?_, ?_, hk _ mem_cons_self⟩
  · refine (hI.writeTokens ht.running true ts).returned rfl (fun htime => ?_) (by simp)
    exact Eq.symm (ht.current htime.2 htime.1)
  · exact Guar.write (b := true) (w := .tokens ts) [.returned i cfg (some ts)]
      (by simp [Entry.op]) rfl nofun

end

/-! ### The operations that settle the configuration -/

def Left (op : Op) (i : ℕ) (s : State) : Prop :=
  ∃ cfg ts, .returned i cfg ts ∈ s.log ∧ op.Leaves cfg ts

theorem Left.rely {op : Op} (h : Left op i s) (hR : Rely i b s s') : Left op i s' := by
  obtain ⟨cfg, ts, hmem, hleaves⟩ := h
  exact ⟨cfg, ts, hR.log.subset hmem, hleaves⟩

section

variable {m : Manager} {force : Bool}

theorem handleCallback_sound {state code : String}
    (hop : ops[i]? = some (.handleCallback state code)) (hrun : Running i s.log) :
    Sound ops i true (fun r t => r = .ok () → Left (.handleCallback state code) i t)
      (handleCallback m i state code) s := by
  refine sound_silent_bind (fun t e => ?_) fun t e hR => ?_
  · cases t.pending.find? fun pa => pa.state = state with
    | none | some _ => exact ⟨rfl, rfl, rfl⟩
  have hrun' := hrun.rely hR
  split
  · exact sound_ne nofun
  split
  · exact sound_ne nofun
  refine sound_getConfig_bind hrun' (fun err t _ => sound_ne nofun) fun cfg t ht => ?_
  refine sound_tokenRequest_bind ht fun r t ht => ?_
  cases r with
  | error err => exact sound_ne nofun
  | ok ts => ?_
  refine sound_updateConfig_bind hop ht ?_ nofun (fun err t _ => sound_ne nofun) ?_
  · -- in a timely run the row is still the configuration that was read
    rintro row rfl
    rfl
  intro t ht
  refine sound_settle_bind ht fun t hmem => ?_
  exact fun t' hR' _ _ => Left.rely ⟨_, _, hmem, ts, rfl, rfl, rfl⟩ hR'

theorem discover_sound (urls : List String) (h : Holds i true cfg s) :
    Sound ops i true (fun _ t => Holds i true cfg t) (discover urls) s := by
  induction urls generalizing s with
  | nil => exact fun t hR _ => h.rely hR
  | cons url urls ih => ?_
  rw [discover]
  split
  · exact ih h
  refine sound_observe_bind fun t e hR => ?_
  have ht := h.rely hR
  split
  · split
    · exact ih ht
    · exact fun t' hR' _ => ht.rely hR'
  · exact ih ht

theorem register_sound {disc : Option OAuthDiscovery} {regEndpoint : String}
    (hop : ops[i]? = some (.reRegister force)) (h : Holds i true cfg s) :
    Sound ops i true (fun r t => r = .ok true → Left (.reRegister force) i t)
      (register m i cfg disc regEndpoint) s := by
  refine sound_observe_bind fun t e hR => ?_
  have ht := h.rely hR
  cases e.registration with
  | error err => exact sound_ne nofun
  | ok reg => ?_
  refine sound_updateConfig_bind hop ht ?_ nofun (fun err t _ => sound_ne nofun) ?_
  · rintro row rfl
    rfl
  intro t ht
  refine sound_settle_bind ht fun t hmem => ?_
  exact fun t' hR' _ _ => Left.rely ⟨_, _, hmem, rfl, rfl⟩ hR'

theorem discoverIfNeeded_sound (h : Holds i true cfg s) :
    Sound ops i true (fun _ t => Holds i true cfg t) (discoverIfNeeded cfg) s := by
  unfold discoverIfNeeded
  split
  · exact discover_sound _ h
  · exact fun t hR _ => h.rely hR

theorem reRegister_sound (hop : ops[i]? = some (.reRegister force)) (hrun : Running i s.log) :
    Sound ops i true (fun r t => r = .ok true → Left (.reRegister force) i t)
      (reRegister m i force) s := by
  refine sound_getConfig_bind hrun (fun err t _ => sound_ne nofun) fun cfg t ht => ?_
  dsimp only
  split
  · exact sound_ne nofun
  unfold reRegisterIfNeeded
  split
  · exact sound_ne nofun
  refine Safe.bind (discoverIfNeeded_sound ht) ?_
  intro disc t ht
  split
  · split
    · split <;> exact sound_ne nofun
    · exact register_sound hop ht
  · exact register_sound hop ht

theorem serverEdit_sound {form : RemoteConfig} (hop : ops[i]? = some (.edit form))
    (hrun : Running i s.log) :
    Sound ops i true (fun r t => r = .done true → Left (.edit form) i t) (serverEdit i form) s := by
  refine sound_getConfig_bind hrun (fun err t _ => sound_ne nofun) fun old t ht => ?_
  refine safe_attempt_bind (Guar.refl i) fun t hR hI => ?_
  have ht := ht.rely hR
  refine ⟨fun _ => sound_ne nofun, fun e => ⟨?_, ?_, ?_⟩⟩
  · refine (hI.writeConfig ht.running fun htime => ⟨_, hop, ?_⟩).returned rfl (fun _ => rfl) nofun
    rw [← show old = t.config from ht.current htime.2 htime.1]
    rfl
  · exact Guar.write (b := true) (w := .config t.config (old.preserve form))
      [.returned i (old.preserve form) none] (by simp [Entry.op]) rfl nofun
  · exact fun t' hR' _ _ => Left.rely ⟨_, _, mem_cons_self, rfl, old, rfl⟩ hR'

end

/-! ### Refreshes -/

section

variable {m : Manager} {op : Op}

theorem getTokenInfo_sound (hrun : Running i s.log) :
    Sound ops i false (fun _ _ => True) (getTokenInfo m i) s := by
  refine sound_silent_bind (fun _ _ => ⟨rfl, rfl, rfl⟩) fun t _ hR => ?_
  split
  · exact safe_true
  refine sound_getConfig_bind (hrun.rely hR) (fun err t _ => safe_true) fun cfg t ht => ?_
  dsimp only
  split
  · exact safe_true
  · exact Safe.bind (sound_setTokens ht.running) fun _ _ _ => safe_true

variable (hop : ops[i]? = some op)
  (hch : ∀ before after, Agree false before after → op.Changes before after) {ts : TokenSet}
include hop hch

theorem clearTokens_sound (h : Holds i false cfg s) :
    Sound ops i false (fun _ _ => True) (clearTokens i cfg) s := by
  have hcleared : Agree false cfg cfg.cleared := rfl
  refine sound_updateConfig_bind hop h (fun row hrow => hch _ _ (hrow.symm.trans hcleared))
    (fun _ => hcleared) (fun err t ht => ?_) fun t ht => ?_
  · exact (sound_setTokens ht.running).weaken fun _ _ _ _ => trivial
  · exact (sound_setTokens ht.running).weaken fun _ _ _ _ => trivial

theorem rediscover_sound {data : List (String × String)} {err : String} (h : Holds i false cfg s) :
    Sound ops i false (fun r t => Holds i false r.1 t) (rediscover i cfg data err) s := by
  refine sound_observe_bind fun t e hR => ?_
  have ht := h.rely hR
  split
  · next disc _ =>
    have hdisc : Agree false cfg (cfg.rediscovered disc) := rfl
    split
    · -- whether the new endpoints were saved or not, they are used from here on
      refine sound_updateConfig_bind hop ht (fun row hrow => hch _ _ (hrow.symm.trans hdisc))
        (fun _ => hdisc) (fun err t ht => ?_) fun t ht => ?_
      · have ht' : Holds i false (cfg.rediscovered disc) t :=
          ⟨ht.running, fun htime hfresh => hdisc.symm.trans (ht.current htime hfresh)⟩
        exact sound_tokenRequest_bind ht' fun r t ht => fun t' hR' _ => ht.rely hR'
      · exact sound_tokenRequest_bind ht fun r t ht => fun t' hR' _ => ht.rely hR'
    · exact fun t' hR' _ => ht.rely hR'
  · exact fun t' hR' _ => ht.rely hR'

theorem finishRefresh_sound (h : Holds i false cfg s) (reply : Except String TokenSet) :
    Sound ops i false (fun _ _ => True) (finishRefresh m i cfg ts reply) s := by
  cases reply with
  | error err =>
    rw [finishRefresh]
    split
    · exact Safe.bind (clearTokens_sound hop hch h) fun _ _ _ => safe_true
    · exact safe_true
  | ok newTS =>
    have hsaved : ∀ saved, Agree false cfg (cfg.withTokens m saved) := fun _ => rfl
    refine sound_updateConfig_bind hop h (fun row hrow => hch _ _ (hrow.symm.trans (hsaved _)))
      (fun _ => hsaved _) (fun err t ht => safe_true) fun t ht => ?_
    exact Safe.bind (sound_setTokens ht.running) fun _ _ _ => safe_true

theorem doRefreshToken_sound (hrun : Running i s.log) (ts : Option TokenSet) :
    Sound ops i false (fun _ _ => True) (doRefreshToken m i ts) s := by
  cases ts with
  | none => exact safe_true
  | some ts => ?_
  rw [doRefreshToken]
  split
  · exact safe_true
  refine sound_getConfig_bind hrun (fun err t _ => safe_true) fun cfg t ht => ?_
  refine sound_tokenRequest_bind ht fun r t ht => ?_
  cases r with
  | ok newTS => exact finishRefresh_sound hop hch ht _
  | error err => ?_
  dsimp only
  split
  · refine Safe.bind (rediscover_sound hop hch ht) fun r t ht => ?_
    exact finishRefresh_sound hop hch ht r.2
  · exact finishRefresh_sound hop hch ht _

theorem refreshToken_sound (hrun : Running i s.log) :
    Sound ops i false (fun _ _ => True) (refreshToken m i) s := by
  refine sound_silent_bind (fun t e => ?_) fun t e hR => ?_
  · cases t.refreshing with
    | none | some _ => exact ⟨rfl, rfl, rfl⟩
  split
  · refine safe_act.mpr fun t' _ hI e => ?_
    cases t'.outcomes.lookup _ with
    | none | some _ => exact ⟨hI, Guar.refl i t', fun _ _ _ => trivial⟩
  · refine Safe.bind (doRefreshToken_sound hop hch (hrun.rely hR) _) fun r t _ => ?_
    exact sound_silent_bind (fun _ _ => ⟨rfl, rfl, rfl⟩) fun _ _ _ => safe_true

theorem useTokens_sound (hrun : Running i s.log) :
    Sound ops i false (fun _ _ => True) (useTokens m i ts) s := by
  refine sound_observe_bind fun t e hR => ?_
  split
  · refine Safe.bind (refreshToken_sound hop hch (hrun.rely hR)) fun r t _ => ?_
    cases r with
    | error err => exact safe_true
    | ok _ =>
      refine sound_silent_bind (fun _ _ => ⟨rfl, rfl, rfl⟩) fun t _ _ => ?_
      split <;> exact safe_true
  · exact safe_true

theorem getAccessToken_sound (hrun : Running i s.log) :
    Sound ops i false (fun _ _ => True) (getAccessToken m i) s := by
  refine sound_silent_bind (fun _ _ => ⟨rfl, rfl, rfl⟩) fun t _ hR => ?_
  have ht := hrun.rely hR
  split
  · exact useTokens_sound hop hch ht
  refine sound_getConfig_bind ht (fun err t _ => safe_true) fun cfg t ht => ?_
  dsimp only
  split
  · exact safe_true
  · exact Safe.bind (sound_setTokens ht.running) fun _ _ ht => useTokens_sound hop hch ht

end

/-! ### Whole runs -/

variable {m : Manager} {op : Op}

def Answered (op : Op) (i : ℕ) (r : Outcome) (s : State) : Prop :=
  op.settles = true → r = .done true → Left op i s

theorem body_sound (hop : ops[i]? = some op) (hrun : Running i s.log) :
    Sound ops i op.settles (Answered op i) (op.body m i) s := by
  have hrefresh : ∀ {op : Op} {p : Run Outcome}, op.settles = false →
      Sound ops i false (fun _ _ => True) p s → Sound ops i false (Answered op i) p s :=
    fun hop h => h.weaken fun _ _ _ _ hsettles => absurd (hop.symm.trans hsettles) (by simp)
  cases op with
  | handleCallback state code =>
    refine Safe.bind (handleCallback_sound hop hrun) ?_
    intro r t hr t' hR' _ _ hdone
    cases r with
    | error err => cases hdone
    | ok _ => exact (hr rfl).rely hR'
  | reRegister force =>
    refine Safe.bind (reRegister_sound hop hrun) ?_
    intro r t hr
    cases r with
    | error err => exact fun _ _ _ _ hdone => nomatch hdone
    | ok changed => ?_
    intro t' hR' _ _ hdone
    cases hdone
    exact (hr rfl).rely hR'
  | edit form => exact (serverEdit_sound hop hrun).weaken fun _ _ _ h _ => h
  | getAccessToken => exact hrefresh rfl (getAccessToken_sound hop (fun _ _ h => Agree.symm h) hrun)
  | getTokenInfo => exact hrefresh rfl (getTokenInfo_sound hrun)
  | forceRefresh =>
    refine hrefresh rfl ?_
    exact Safe.bind (refreshToken_sound hop (fun _ _ h => Agree.symm h) hrun) fun _ _ _ => safe_true

/-- **An operation keeps the invariant**, among others that do. -/
theorem run_sound (hop : ops[i]? = some op) (hown : own i s.log = []) :
    Sound ops i op.settles (Answered op i) (op.run m i) s := by
  refine safe_act_bind.mpr fun t hR hI _ => ?_
  refine ⟨hI.quiet trivial, Guar.note (e := .started i) rfl rfl rfl, body_sound hop ?_⟩
  refine ⟨mem_cons_self, fun cfg ts hmem => ?_⟩
  have hold : .returned i cfg ts ∈ own i t.log :=
    History.mem_own.mpr ⟨mem_of_ne_of_mem (by simp) hmem, rfl⟩
  rw [hR.own, hown] at hold
  cases hold

def settlesAt (ops : List Op) (i : ℕ) : Bool := (ops[i]?).any Op.settles

theorem operations_safe (m : Manager) (config : RemoteConfig) (tokens : Option TokenSet)
    (pending : List PendingAuth) (ops : List Op) :
    (operations m config tokens pending ops).AllSafe (Inv ops)
      (fun i => Rely i (settlesAt ops i)) Guar
      (fun i r s => ∀ op, ops[i]? = some op → Answered op i r s) := by
  refine Pool.allSafe_mapIdx ⟨trivial, fun _ => trivial, fun _ _ _ _ _ hw => nomatch hw⟩ ?_
  intro i op hop
  have hb : settlesAt ops i = op.settles := by simp [settlesAt, hop]
  rw [hb]
  refine (run_sound hop rfl).weaken fun r s _ hr op' hop' => ?_
  obtain rfl : op = op' := Option.some.inj (hop.symm.trans hop')
  exact hr

theorem world_inv (ev : WorldEvent) (s : State) (h : Inv ops s) :
    Inv ops (world ev s) ∧ ∀ i, Rely i (settlesAt ops i) s (world ev s) := by
  cases ev with
  | flowStarted _ | cleanup _ => exact ⟨h.of_eq rfl rfl rfl, fun _ => Rely.of_eq rfl rfl⟩

/-- **Nothing settled is lost in a timely run**: what a callback, a re-registration or an
edit that has returned has left in the row and in memory stays until an operation that was
started later replaces it, and no one else writes. -/
theorem settled_kept (m : Manager) (config : RemoteConfig) (tokens : Option TokenSet)
    (pending : List PendingAuth) (ops : List Op) (sched : List (Event WorldEvent Env))
    (hrun : Timely ((operations m config tokens pending ops).exec world sched).state.log) :
    Kept ops ((operations m config tokens pending ops).exec world sched).state ∧
      ∀ i op, ops[i]? = some op → op.settles = true →
        ((operations m config tokens pending ops).exec world sched).result i = some (.done true) →
          Left op i ((operations m config tokens pending ops).exec world sched).state := by
  have hsafe := Pool.exec_safe (R := fun i => Rely i (settlesAt ops i)) (G := Guar)
    (fun _ _ => Rely.of_eq rfl rfl) (fun _ _ _ _ => Rely.trans)
    (fun i j hij _ _ _ h => h j hij.symm _) world_inv
    (operations_safe m config tokens pending ops) sched
  refine ⟨hsafe.inv.kept hrun, fun i op hop hsettles hres => ?_⟩
  exact hsafe.post (fun _ _ => Rely.of_eq rfl rfl) hres op hop hsettles rfl

def demoManager : Manager := ⟨"https://relay.example", "srv", toString, fun _ => none⟩

def demoConfig : RemoteConfig where
  url := "https://mcp.example"
  auth :=
    { authType := "oauth", clientID := "relay", authURL := "https://idp.example/authorize"
      tokenURL := "https://idp.example/token", accessToken := "a1", refreshToken := "r1" }

/-- Two edits, the second after the first. -/
theorem settled_kept_edit :
    let form : RemoteConfig := ⟨"https://other.example", { authType := "oauth" }⟩
    let back : RemoteConfig := ⟨"https://mcp.example", { authType := "oauth" }⟩
    let ops : List Op := [.edit form, .edit back]
    let P := (operations demoManager demoConfig none [] ops).exec world
      (replicate 3 (.run 0 {}) ++ replicate 3 (.run 1 {}))
    Left (.edit form) 0 P.state ∧ Left (.edit back) 1 P.state ∧
      P.state.config = (demoConfig.preserve form).preserve back := by
  intro form back ops P
  let first := demoConfig.preserve form
  have hlog : P.state.log = [.returned 1 (first.preserve back) none,
      .wrote 1 true (.config first (first.preserve back)), .started 1,
      .returned 0 first none, .wrote 0 true (.config demoConfig first), .started 0] := by
    decide +kernel
  have hrun : Timely P.state.log := by
    rw [hlog]
    exact ⟨by simp [Fresh, since], by simp [Fresh, since], trivial⟩
  obtain ⟨hkept, hleft⟩ := settled_kept demoManager demoConfig none [] ops _ hrun
  refine ⟨hleft 0 _ rfl rfl (by decide +kernel), hleft 1 _ rfl rfl (by decide +kernel), ?_⟩
  exact (hkept.remains [] 1 _ none _ hlog nofun).1

/-- A refresh has read the tokens and the configuration; a callback brings new ones and
returns; the provider refuses the old refresh token, and the refresh clears the tokens of
the callback. -/
theorem tokens_cleared_by_stale_refresh :
    let old : TokenSet := { accessToken := "a1", refreshToken := "r1" }
    let ops : List Op := [.forceRefresh, .handleCallback "st" "code"]
    let P := (operations demoManager demoConfig (some old) [⟨"st", "v", 0⟩] ops).exec world
      (replicate 3 (.run 0 {}) ++
        replicate 6 (.run 1 { token := .ok "a2" "r2" "Bearer" 0 }) ++
        replicate 4 (.run 0 { token := .status 400 "invalid_grant" "revoked" }))
    P.result 1 = some (.done true) ∧ P.state.config.auth.accessToken = "" ∧
      P.state.tokens = none ∧ ¬ Kept ops P.state := by
  intro old ops P
  let new : TokenSet := { accessToken := "a2", refreshToken := "r2", tokenType := "Bearer" }
  -- one evaluation of the run gives all that is read off it
  have heval : (P.result 1 = some (.done true) ∧ P.state.config.auth.accessToken = "" ∧
        P.state.tokens = none) ∧
      P.state.log = P.state.log.take 3 ++
        .returned 1 (demoConfig.withTokens demoManager new) (some (some new)) ::
          P.state.log.drop 4 ∧
      .wrote 0 false (.tokens none) ∈ P.state.log.take 3 ∧
      .started 0 ∉ P.state.log.take 3 := by
    decide +kernel
  clear_value P
  obtain ⟨⟨hres, haccess, htokens⟩, hlog, hwrote, hstale⟩ := heval
  refine ⟨hres, haccess, htokens, fun hkept => ?_⟩
  exact hstale (hkept.later _ _ _ _ _ hlog _ _ _ hwrote)

end ArcRelay.OAuth
